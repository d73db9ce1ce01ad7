import X86.Proofs.Alu.Control
import X86.Proofs.Machine.Run

/-!
# What instructions do to the flags

A handler that sets status flags computes them from the flags that it has found, and sets them last.
So a property of the flags that survives every change of the status flags survives the handler, even
where the handler stops halfway; `StatusFree` names these properties, and `KeepsFlags S` says that a
computation keeps the property `S`. What writes no flag at all keeps every property.

* `KeepsFlags.changes`: a computation whose footprint has no flags in it keeps every property.
* `keepsFlags_…`: one lemma for each handler that sets status flags.
* `keepsFlags_perform`: **an instruction keeps the property, however often it repeats**, unless it
  loads the flags from an image or enters a handler.
* `flags_frame`: **control flags are written only by their own instructions.**
-/

namespace X86

/-! ### Kinds of operations -/

namespace Operation

/-- The operation sets status flags from a result. -/
def setsStatus : Operation → Bool
  | .binary _ | .unary .inc | .unary .dec | .unary .neg | .shift _ | .shiftLeftDouble
  | .shiftRightDouble | .multiply _ | .multiplyCut | .decimal _ | .aam | .aad | .test | .bitTest _
  | .bitScan _ | .sahf | .arpl | .string .cmps | .string .scas => true
  | _ => false

/-- The operation loads the flags from an image, or enters a handler, which starts with flags of
its own. -/
def loadsFlags : Operation → Bool
  | .popf | .iret | .int => true
  | _ => false

/-- The operation sets, clears or inverts a single flag. -/
def setsFlag : Operation → Bool
  | .flag _ => true
  | _ => false

/-- The operation writes a flag. -/
def writesFlags (o : Operation) : Bool := o.setsFlag || o.setsStatus || o.loadsFlags

theorem loadsFlags_cases {o : Operation} (h : o.loadsFlags = true) :
    o = .popf ∨ o = .iret ∨ o = .int := by
  cases o <;> first | exact absurd h Bool.false_ne_true | simp

end Operation

namespace Exec

/-! ### Properties of the flags -/

/-- The property does not depend on the status flags. -/
def StatusFree (S : Flags → Prop) : Prop := ∀ {f g}, g.SameControl f → S f → S g

/-- However a run ends, it keeps the property of the flags. -/
def KeepsFlags {α : Type} (S : Flags → Prop) (x : Exec α) : Prop :=
  ∀ m, S m.cpu.regs.flags → S (after x m).cpu.regs.flags

/-- The kinds of change that write no flag. -/
def Unflagged (k : ChangeKind) : Prop := k ≠ .flags ∧ k ≠ .service

instance : DecidablePred Unflagged := fun k =>
  inferInstanceAs (Decidable (k ≠ .flags ∧ k ≠ .service))

theorem unflagged_general : Unflagged .general := by decide

/-- What a load of a selector, control or debug register changes beside it are not the flags. -/
theorem unflagged_of_mem_kinds {o : Operand} {k : ChangeKind} (hk : k ∈ o.kinds) : Unflagged k := by
  have hLoads : ∀ k ∈ [ChangeKind.code, .segment, .hold], Unflagged k := by decide
  rcases Operand.mem_kinds hk with h | ⟨rfl, -⟩
  · exact hLoads k h
  · decide

theorem KeepsFlags.changes {α : Type} {S : Flags → Prop} {x : Exec α} (hx : Changes Unflagged x) :
    KeepsFlags S x := by
  intro m hm
  rwa [(hx m).flags_eq_of_unserved (fun h => h.1 rfl) fun h => h.2 rfl]

namespace KeepsFlags

variable {α β : Type} {S : Flags → Prop} {x y : Exec α} {f : α → Exec β}

theorem reads (hx : Reads x) : KeepsFlags S x := .changes hx.changes

theorem bind (hx : KeepsFlags S x) (hf : ∀ a, KeepsFlags S (f a)) : KeepsFlags S (x >>= f) := by
  intro m hm
  have hAfter := hx m hm
  cases h : x m with
  | ok a m₁ =>
    rw [after_of_ok h] at hAfter
    rw [after_bind_of_ok h]
    exact hf a m₁ hAfter
  | error s m₁ =>
    rw [after_of_error h] at hAfter
    rwa [after_bind_of_error h]

theorem ite {p : Prop} [Decidable p] (hx : p → KeepsFlags S x) (hy : ¬ p → KeepsFlags S y) :
    KeepsFlags S (if p then x else y) := by
  by_cases hp : p
  · rw [if_pos hp]
    exact hx hp
  · rw [if_neg hp]
    exact hy hp

theorem pure (a : α) : KeepsFlags S (Pure.pure a : Exec α) := .reads (.pure a)

theorem fault (e : Exception) : KeepsFlags S (Exec.fault e : Exec α) := .reads (.fault e)

theorem afterReads (hx : Reads x) (hf : ∀ a, KeepsFlags S (f a)) : KeepsFlags S (x >>= f) :=
  (KeepsFlags.reads hx).bind hf

theorem afterCpu {f : Cpu → Exec β} (hf : ∀ c, S c.regs.flags → KeepsFlags S (f c)) :
    KeepsFlags S (cpu >>= f) := by
  intro m hm
  rw [after_bind_of_ok (cpu_apply m)]
  exact hf m.cpu hm m hm

theorem afterRegs {f : Registers → Exec β} (hf : ∀ g, S g.flags → KeepsFlags S (f g)) :
    KeepsFlags S (regs >>= f) := by
  intro m hm
  rw [after_bind_of_ok (regs_apply m)]
  exact hf m.cpu.regs hm m hm

theorem afterFlags {g : Flags → Exec β} (hg : ∀ f, S f → KeepsFlags S (g f)) :
    KeepsFlags S (flags >>= g) := by
  intro m hm
  rw [after_bind_of_ok (flags_apply m)]
  exact hg m.cpu.regs.flags hm m hm

theorem setFlags {f : Flags} (hf : S f) : KeepsFlags S (setFlags f) := fun _ _ => hf

theorem writePlace (p : Place) (w : Width) (v : UInt32) : KeepsFlags S (writePlace p w v) :=
  .changes (Restartable.writePlace (S := True) unflagged_general p w v).1

theorem modifyRegs {g : Registers → Registers} (hg : Rewrites Unflagged g) :
    KeepsFlags S (modifyRegs g) :=
  .changes hg.sure.1

end KeepsFlags

theorem keepsFlags_advance {S : Flags → Prop} (i : Instruction) (r : Gpr) :
    KeepsFlags S (advance i r) :=
  .changes (sure_advance unflagged_general i r).1

/-! ### Handlers that set status flags -/

section Handlers

variable {S : Flags → Prop} (hS : StatusFree S) (i : Instruction)

include hS

theorem keepsFlags_binary (op : BinaryOp) : KeepsFlags S (binary op i) := by
  refine .afterReads (.place i _) fun dst => .afterReads (.place i _) fun src => ?_
  refine .afterReads (.readPlace _ _) fun a => .afterReads (.readPlace _ _) fun b => ?_
  refine .afterFlags fun f hf => ?_
  have hSet := KeepsFlags.setFlags (hS (Alu.sameControl_binary i.size a b f op) hf)
  exact .ite (fun _ => hSet) fun _ => (KeepsFlags.writePlace _ _ _).bind fun _ => hSet

theorem keepsFlags_test : KeepsFlags S (test i) := by
  refine .afterReads (.place i _) fun dst => .afterReads (.place i _) fun src => ?_
  refine .afterReads (.readPlace _ _) fun a => .afterReads (.readPlace _ _) fun b => ?_
  exact .afterFlags fun f hf => .setFlags (hS (Alu.sameControl_logic i.size _ f) hf)

/-- The end of most handlers: the result goes to its place, then the flags are set. -/
theorem KeepsFlags.writeBack {f g : Flags} (hg : g.SameControl f) (hf : S f) (p : Place)
    (w : Width) (v : UInt32) : KeepsFlags S (do Exec.writePlace p w v; Exec.setFlags g) :=
  (KeepsFlags.writePlace p w v).bind fun _ => .setFlags (hS hg hf)

theorem keepsFlags_unary {op : UnaryOp} : KeepsFlags S (unary op i) := by
  refine .afterReads (.place i _) fun dst => .afterReads (.readPlace _ _) fun a => ?_
  exact .afterFlags fun f hf => .writeBack hS (Alu.sameControl_unary i.size a f op) hf _ _ _

theorem keepsFlags_shift (op : ShiftOp) : KeepsFlags S (shift op i) := by
  refine .afterReads (.place i _) fun dst => .afterReads (.place i _) fun count => ?_
  refine .afterReads (.readPlace _ _) fun a => .afterReads (.readPlace _ _) fun n => ?_
  refine .afterCpu fun c _ => ?_
  dsimp only
  rw [requireShift_eq (canShift_shiftAmounts op i.size _)]
  refine .afterReads (.pure _) fun _ => .afterFlags fun f hf => ?_
  exact .writeBack hS (Alu.sameControl_shift i.size a f op _ n) hf _ _ _

theorem keepsFlags_doubleShift {amounts : Width → UInt32 → List (Option Nat)}
    (hAmounts : ∀ w n, Alu.canShift 128 (amounts w n) = true)
    {compute : Width → UInt32 → UInt32 → UInt32 → Flags → UInt32 × Flags}
    (hCompute : ∀ w a b f n, (compute w a b n f).2.SameControl f) :
    KeepsFlags S (doubleShift amounts compute i) := by
  refine .afterReads (.place i _) fun dst => .afterReads (.place i _) fun src => ?_
  refine .afterReads (.place i _) fun count => .afterReads (.readPlace _ _) fun a => ?_
  refine .afterReads (.readPlace _ _) fun b => .afterReads (.readPlace _ _) fun n => ?_
  rw [requireShift_eq (hAmounts i.size n)]
  refine .afterReads (.pure _) fun _ => .afterFlags fun f hf => ?_
  exact .writeBack hS (hCompute i.size a b f n) hf _ _ _

theorem keepsFlags_multiply (signed : Bool) : KeepsFlags S (multiply signed i) := by
  refine .afterReads (.place i _) fun src => .afterReads (.readPlace _ _) fun b => ?_
  refine .afterCpu fun c hc => ?_
  refine (KeepsFlags.modifyRegs (.setDouble unflagged_general _ _)).bind fun _ => ?_
  refine .setFlags (hS ?_ hc)
  cases signed with
  | true => exact Alu.sameControl_imul i.size _ b _ c.features
  | false => exact Alu.sameControl_mul i.size _ b _ c.features

theorem keepsFlags_multiplyCut : KeepsFlags S (multiplyCut i) := by
  refine .afterReads (.place i _) fun dst => .afterReads (.place i _) fun src => ?_
  refine .afterCpu fun c hc => ?_
  have hEnd (a b : UInt32) : KeepsFlags S (do
      Exec.writePlace dst i.size (Alu.imul c.features i.size a b c.regs.flags).1.toUInt32
      Exec.setFlags (Alu.imul c.features i.size a b c.regs.flags).2) :=
    .writeBack hS (Alu.sameControl_imul i.size a b _ c.features) hc _ _ _
  by_cases hi : i.src2 = .absent
  · simp only [hi, if_true]
    refine .afterReads (.readPlace _ _) fun a => .afterReads (.readPlace _ _) fun b => ?_
    exact .afterReads (.pure _) fun _ => hEnd _ _
  · simp only [hi, if_false]
    refine .afterReads (.place i _) fun imm => .afterReads (.readPlace _ _) fun a => ?_
    exact .afterReads (.readPlace _ _) fun b => .afterReads (.pure _) fun _ => hEnd _ _

theorem keepsFlags_decimal (op : DecimalOp) : KeepsFlags S (decimal op) := by
  refine .afterCpu fun c hc => ?_
  have hAl {r : UInt8 × Flags} (hr : r.2.SameControl c.regs.flags) :
      KeepsFlags S (do Exec.modifyRegs (·.setByte .al r.1); Exec.setFlags r.2) :=
    (KeepsFlags.modifyRegs (.setByte unflagged_general .al fun _ => _)).bind fun _ =>
      .setFlags (hS hr hc)
  have hAx {r : UInt16 × Flags} (hr : r.2.SameControl c.regs.flags) :
      KeepsFlags S (do Exec.modifyRegs (·.setWord .ax r.1); Exec.setFlags r.2) :=
    (KeepsFlags.modifyRegs (.setWord unflagged_general .ax fun _ => _)).bind fun _ =>
      .setFlags (hS hr hc)
  cases op with
  | daa => exact hAl (Alu.sameControl_daa _ _)
  | das => exact hAl (Alu.sameControl_das _ _)
  | aaa => exact hAx (Alu.sameControl_aaa _ _ _)
  | aas => exact hAx (Alu.sameControl_aas _ _ _)

theorem keepsFlags_aam : KeepsFlags S (aam i) := by
  refine .afterRegs fun g hg => ?_
  cases h : Alu.aam (g.byte .al) (base i) g.flags with
  | none => exact .fault _
  | some r =>
    refine (KeepsFlags.modifyRegs (.setWord unflagged_general .ax fun _ => _)).bind fun _ => ?_
    exact .setFlags (hS (Alu.sameControl_aam _ h) hg)

theorem keepsFlags_aad : KeepsFlags S (aad i) := by
  refine .afterRegs fun g hg => ?_
  refine (KeepsFlags.modifyRegs (.setWord unflagged_general .ax fun _ => _)).bind fun _ => ?_
  exact .setFlags (hS (Alu.sameControl_aad _ _ _) hg)

theorem keepsFlags_setStatus {h : Flags → Flags} (hh : ∀ f, (h f).SameControl f) :
    KeepsFlags S (do Exec.setFlags (h (← flags))) :=
  .afterFlags fun f hf => .setFlags (hS (hh f) hf)

theorem keepsFlags_bitTest (op : BitOp) : KeepsFlags S (bitTest op i) := by
  refine .afterReads (.place i _) fun dst => .afterReads (.place i _) fun src => ?_
  refine .afterReads (.readPlace _ _) fun number => .afterReads (.readPlace _ _) fun v => ?_
  have hCarry (b : Bool) : KeepsFlags S (do Exec.setFlags { ← flags with carry := b }) :=
    keepsFlags_setStatus hS fun f => .status f _ _ _ _ _ _
  dsimp only
  split
  · exact (KeepsFlags.writePlace _ _ _).bind fun _ => hCarry _
  · exact hCarry _

theorem keepsFlags_bitScan (op : ScanOp) : KeepsFlags S (bitScan op i) := by
  refine .afterReads (.place i _) fun dst => .afterReads (.place i _) fun src => ?_
  refine .afterReads (.readPlace _ _) fun v => ?_
  have hZero (b : Bool) : KeepsFlags S (do Exec.setFlags { ← flags with zero := b }) :=
    keepsFlags_setStatus hS fun f => .status f _ _ _ _ _ _
  split
  · exact (KeepsFlags.writePlace _ _ _).bind fun _ => hZero _
  · exact hZero _

theorem keepsFlags_arpl : KeepsFlags S (arpl i) := by
  refine .afterCpu fun c _ => .afterReads (.check _) fun _ => ?_
  refine .afterReads (.place i _) fun dst => .afterReads (.place i _) fun src => ?_
  refine .afterReads (.readPlace _ _) fun a => .afterReads (.readPlace _ _) fun b => ?_
  have hZero (z : Bool) : KeepsFlags S (do Exec.setFlags { ← flags with zero := z }) :=
    keepsFlags_setStatus hS fun f => .status f _ _ _ _ _ _
  exact .ite (fun _ => (KeepsFlags.writePlace _ _ _).bind fun _ => hZero _) fun _ => hZero _

theorem keepsFlags_sahf : KeepsFlags S sahf :=
  .afterRegs fun g hg => .setFlags (hS (.status g.flags _ _ _ _ _ _) hg)

theorem keepsFlags_compareElements (w : Width) (a b : UInt32) :
    KeepsFlags S (compareElements w a b) :=
  keepsFlags_setStatus hS fun f => Alu.sameControl_subWithBorrow w a b f false

theorem keepsFlags_cmps : KeepsFlags S (stringElement .cmps i) := by
  have hMove (r : Gpr) : KeepsFlags S (advance i r) := keepsFlags_advance i r
  refine .afterCpu fun c _ => .afterReads (.readMem _ _) fun a => ?_
  refine .afterReads (.readMem _ _) fun b => (keepsFlags_compareElements hS _ _ _).bind fun _ => ?_
  exact (hMove _).bind fun _ => hMove _

theorem keepsFlags_scas : KeepsFlags S (stringElement .scas i) := by
  have hMove (r : Gpr) : KeepsFlags S (advance i r) := keepsFlags_advance i r
  refine .afterCpu fun c _ => .afterReads (.readMem _ _) fun b => ?_
  exact (keepsFlags_compareElements hS _ _ _).bind fun _ => hMove _

end Handlers

/-! ### Handlers that keep every flag or change one -/

section Others

variable {S : Flags → Prop} (i : Instruction)

theorem keepsFlags_not : KeepsFlags S (unary .not i) := by
  refine .afterReads (.place i _) fun dst => .afterReads (.readPlace _ _) fun a => ?_
  exact .afterFlags fun f hf => (KeepsFlags.writePlace _ _ _).bind fun _ => .setFlags hf

/-- A string instruction that compares nothing writes no flag. -/
theorem keepsFlags_copy {op : StringOp} (hCmps : op ≠ .cmps) (hScas : op ≠ .scas) :
    KeepsFlags S (stringElement op i) := by
  have hMove (r : Gpr) : KeepsFlags S (advance i r) := keepsFlags_advance i r
  have hPort : Unflagged .port := by decide
  have hStore (l : Location) (v : UInt32) : KeepsFlags S (writeMem l i.size v) :=
    .changes (.writeMem _ _ _)
  refine .afterCpu fun c _ => ?_
  cases op with
  | cmps => exact absurd rfl hCmps
  | scas => exact absurd rfl hScas
  | movs =>
    refine .afterReads (.readMem _ _) fun v => (hStore _ _).bind fun _ => ?_
    exact (hMove _).bind fun _ => hMove _
  | lods =>
    refine .afterReads (.readMem _ _) fun v => KeepsFlags.bind ?_ fun _ => hMove _
    exact .changes (Sure.writeRegister unflagged_general (isSegment_accumulator _) v).1
  | stos => exact (hStore _ _).bind fun _ => hMove _
  | ins =>
    have hInput := KeepsFlags.changes (S := S) (Sure.input hPort (c.regs.word .dx) i.size).changes
    refine .afterReads (.check _) fun _ => hInput.bind fun v => ?_
    exact (hStore _ _).bind fun _ => hMove _
  | outs =>
    refine .afterReads (.check _) fun _ => .afterReads (.readMem _ _) fun v => ?_
    exact KeepsFlags.bind (.changes (Sure.output hPort _ _ _).changes) fun _ => hMove _

theorem keepsFlags_flag {op : FlagOp} (hOp : ∀ f, S f → S (changeFlag op f)) :
    KeepsFlags S (flag op) := by
  refine .afterCpu fun c hc => ?_
  have hSet : KeepsFlags S (Exec.setFlags (changeFlag op c.regs.flags)) := .setFlags (hOp _ hc)
  have hHold : KeepsFlags S holdInterrupts := .changes (Sure.holdInterrupts (by decide)).1
  have hEnd : KeepsFlags S (if op = .sti ∧ !c.regs.flags.interrupt then do
      holdInterrupts
      Exec.setFlags (changeFlag op c.regs.flags)
      else Exec.setFlags (changeFlag op c.regs.flags)) :=
    .ite (fun _ => hHold.bind fun _ => hSet) fun _ => hSet
  exact .ite (fun _ => .afterReads (.check _) fun _ => hEnd) fun _ => hEnd

end Others

/-! ### Instructions -/

section Instructions

variable {S : Flags → Prop} {i : Instruction}

/-- One element of an instruction keeps the property of the flags. -/
theorem keepsFlags_once (hi : i.WellFormed) (hLoads : i.operation.loadsFlags = false)
    (hStatus : i.operation.setsStatus = true → StatusFree S)
    (hFlag : ∀ op, i.operation = .flag op → ∀ f, S f → S (changeFlag op f)) :
    KeepsFlags S (once i) := by
  have hRest (h : ∀ k ∈ i.changes, Unflagged k) : KeepsFlags S (once i) :=
    .changes (changes_once hi h)
  revert hRest
  rw [once]
  cases hop : i.operation with
    rw [hop] at hLoads hStatus
  | binary op => exact fun _ => keepsFlags_binary (hStatus rfl) i op
  | unary op =>
    intro _
    cases op with
    | not => exact keepsFlags_not i
    | inc | dec | neg => exact keepsFlags_unary (hStatus rfl) i
  | shift op => exact fun _ => keepsFlags_shift (hStatus rfl) i op
  | shiftLeftDouble =>
    exact fun _ => keepsFlags_doubleShift (hStatus rfl) i canShift_shldAmounts Alu.sameControl_shld
  | shiftRightDouble =>
    exact fun _ => keepsFlags_doubleShift (hStatus rfl) i canShift_shrdAmounts Alu.sameControl_shrd
  | multiply signed => exact fun _ => keepsFlags_multiply (hStatus rfl) i signed
  | multiplyCut => exact fun _ => keepsFlags_multiplyCut (hStatus rfl) i
  | decimal op => exact fun _ => keepsFlags_decimal (hStatus rfl) op
  | aam => exact fun _ => keepsFlags_aam (hStatus rfl) i
  | aad => exact fun _ => keepsFlags_aad (hStatus rfl) i
  | test => exact fun _ => keepsFlags_test (hStatus rfl) i
  | bitTest op => exact fun _ => keepsFlags_bitTest (hStatus rfl) i op
  | bitScan op => exact fun _ => keepsFlags_bitScan (hStatus rfl) i op
  | sahf => exact fun _ => keepsFlags_sahf (hStatus rfl)
  | arpl => exact fun _ => keepsFlags_arpl (hStatus rfl) i
  | flag op => exact fun _ => keepsFlags_flag (hFlag op hop)
  | string op =>
    intro _
    cases op with
    | cmps => exact keepsFlags_cmps (hStatus rfl) i
    | scas => exact keepsFlags_scas (hStatus rfl) i
    | movs | lods | stos | ins | outs => exact keepsFlags_copy i (by decide) (by decide)
  | popf | iret | int => cases hLoads
  | mov | pop =>
    refine fun hRest => hRest fun k hk => ?_
    rw [Instruction.changes, hop] at hk
    rcases List.mem_cons.1 hk with rfl | hk
    · exact unflagged_general
    · exact unflagged_of_mem_kinds hk
  | loadFar s =>
    have hSegment : Unflagged (.ofSegment s) := by cases s <;> decide
    exact fun hRest => hRest (by simp [Instruction.changes, hop, unflagged_general, hSegment])
  | _ => exact fun hRest => hRest (by simp [Instruction.changes, hop, Unflagged])

theorem KeepsFlags.repeatElement (mode : RepeatMode) {element : Exec Unit}
    (hElement : KeepsFlags S element) {counter : Register} (hr : counter.isSegment = false)
    (n : Nat) : KeepsFlags S (repeatElement mode element counter n) := by
  induction n with
  | zero => exact .pure ()
  | succ n ih =>
    have hCounter : KeepsFlags S (writeRegister counter (UInt32.ofNat n)) :=
      .changes (Sure.writeRegister unflagged_general hr _).1
    have hCount : KeepsFlags S (modifyCpu fun c => { c with cycles := c.cycles + 1 }) :=
      .changes (.modify fun m => .count m)
    refine hElement.bind fun _ => hCounter.bind fun _ => hCount.bind fun _ => ?_
    exact .afterFlags fun f _ => .ite (fun _ => .pure ()) fun _ => ih

/-- **An instruction keeps the property of the flags, however often it repeats.** -/
theorem keepsFlags_perform (hi : i.WellFormed) (hLoads : i.operation.loadsFlags = false)
    (hStatus : i.operation.setsStatus = true → StatusFree S)
    (hFlag : ∀ op, i.operation = .flag op → ∀ f, S f → S (changeFlag op f)) :
    KeepsFlags S (perform i) := by
  have hOnce := keepsFlags_once hi hLoads hStatus hFlag
  rw [perform]
  split
  · exact hOnce
  · exact .afterRegs fun _ _ => .repeatElement _ hOnce (isSegment_ofGpr _ _) _

end Instructions

/-! ### Frames -/

/-- The instruction is a software interrupt that no device serves, so that the handler behind its
vector is entered. -/
def IsVectored (i : Instruction) (m : Machine) : Prop :=
  i.operation = .int ∧ ∃ vector, i.dst = .imm8 vector ∧ server m vector = none

/-- The instruction may write a control flag. -/
def WritesControl (i : Instruction) (m : Machine) : Prop :=
  i.operation ∈ [.flag .cli, .flag .sti, .flag .cld, .flag .std, .popf, .iret] ∨ IsVectored i m

variable {i : Instruction} {m m' : Machine}

/-- A device that serves an interrupt leaves the flags alone. -/
theorem flags_of_served (hm : m.Calm) (hOp : i.operation = .int) (hServed : ¬ IsVectored i m)
    (h : once i m = .ok () m') : m'.cpu.regs.flags = m.cpu.regs.flags := by
  have hInt : int i m = .ok () m' := by
    rw [once, hOp] at h
    exact h
  cases hDst : i.dst with
    rw [int, hDst] at hInt
  | imm8 vector =>
    cases hServer : server m vector with
    | none => exact absurd ⟨hOp, vector, hDst, hServer⟩ hServed
    | some nd =>
      have hServe : serveInterrupt vector m = .ok true (served m nd.1 nd.2 vector) := by
        rw [serveInterrupt_apply, hServer]
      cases (bind_of_ok hServe).symm.trans hInt
      exact congrArg (fun c => c.regs.flags) (hm nd.2 (serves_of_server hServer).1 _ _ _)
  | _ => cases hInt

theorem sameControl_changeFlag {op : FlagOp} (f : Flags)
    (hOp : op ∉ [FlagOp.cli, .sti, .cld, .std]) : (changeFlag op f).SameControl f := by
  cases op with
  | clc | stc | cmc => exact .status f _ _ _ _ _ _
  | cli | sti | cld | std => simp at hOp

/-- What an instruction keeps of the flags holds where it has completed. -/
theorem holds_of_perform {S : Flags → Prop} {f : Features} {c : Code}
    (hLoads : (decode f c).operation.loadsFlags = false)
    (hStatus : (decode f c).operation.setsStatus = true → StatusFree S)
    (hFlag : ∀ op, (decode f c).operation = .flag op → ∀ f, S f → S (changeFlag op f))
    (h : perform (decode f c) m = .ok () m') (hOld : S m.cpu.regs.flags) :
    S m'.cpu.regs.flags := by
  have hKeeps := keepsFlags_perform (decode_wellFormed f c) hLoads hStatus hFlag m hOld
  rwa [after_of_ok h] at hKeeps

/-- An instruction that sets one flag does nothing else to the flags. -/
theorem flags_of_flag {op : FlagOp} {f : Features} {c : Code}
    (hop : (decode f c).operation = .flag op) (set : Bool → Flags)
    (hSet : ∀ b, ∃ b', changeFlag op (set b) = set b') (hOld : ∃ b, m.cpu.regs.flags = set b)
    (h : perform (decode f c) m = .ok () m') : ∃ b, m'.cpu.regs.flags = set b := by
  refine holds_of_perform (S := fun g => ∃ b, g = set b) ?_ ?_ ?_ h hOld
  · rw [hop]
    rfl
  · rw [hop]
    exact fun hStatus => absurd hStatus Bool.false_ne_true
  · rintro op' hop' _ ⟨b, rfl⟩
    cases hop.symm.trans hop'
    exact hSet b

/-- **Control flags are written only by their own instructions.** Where no device touches the
processor, an instruction that completes leaves all nine alone unless it is one of POPF, IRET, a
vectored INT, CLI, STI, CLD and STD; the last four write their own flag only. An instruction that
sets no status flag either leaves all flags alone, and so does an INT that a device serves. -/
theorem flags_frame {f : Features} {c : Code} (hm : m.Calm)
    (h : perform (decode f c) m = .ok () m') :
    let i := decode f c
    (¬ WritesControl i m → m'.cpu.regs.flags.SameControl m.cpu.regs.flags) ∧
      (i.operation = .flag .cli ∨ i.operation = .flag .sti →
        ∃ b, m'.cpu.regs.flags = { m.cpu.regs.flags with interrupt := b }) ∧
      (i.operation = .flag .cld ∨ i.operation = .flag .std →
        ∃ b, m'.cpu.regs.flags = { m.cpu.regs.flags with direction := b }) ∧
      (i.operation.writesFlags = false ∨ i.operation = .int ∧ ¬ IsVectored i m →
        m'.cpu.regs.flags = m.cpu.regs.flags) := by
  intro i
  have hServed (hop : i.operation = .int) (hNot : ¬ IsVectored i m) :
      m'.cpu.regs.flags = m.cpu.regs.flags := by
    have hString : i.operation.isString = false := by rw [hop]; rfl
    exact flags_of_served hm hop hNot ((congrFun (perform_of_not_string hString) m).symm.trans h)
  refine ⟨fun hWrites => ?_, ?_, ?_, ?_⟩
  · obtain ⟨hList, hVectored⟩ := not_or.1 hWrites
    by_cases hInt : i.operation = .int
    · rw [hServed hInt hVectored]
      exact .refl _
    have hLoads : i.operation.loadsFlags = false := by
      refine eq_false_of_ne_true fun hLoads => ?_
      rcases Operation.loadsFlags_cases hLoads with hop | hop | hop
      · exact hList (by rw [hop]; decide)
      · exact hList (by rw [hop]; decide)
      · exact hInt hop
    have hOwn : ∀ op ∈ [FlagOp.cli, .sti, .cld, .std], Operation.flag op ∈
        [.flag .cli, .flag .sti, .flag .cld, .flag .std, .popf, .iret] := by decide
    refine holds_of_perform (S := (·.SameControl m.cpu.regs.flags)) hLoads
      (fun _ => fun hg hf => hg.trans hf) (fun op hop g hg => ?_) h (.refl _)
    exact (sameControl_changeFlag g fun hop' => hList (hop ▸ hOwn op hop')).trans hg
  · rintro (hop | hop)
    · exact flags_of_flag hop (fun b => { m.cpu.regs.flags with interrupt := b })
        (fun b => ⟨false, rfl⟩) ⟨_, rfl⟩ h
    · exact flags_of_flag hop (fun b => { m.cpu.regs.flags with interrupt := b })
        (fun b => ⟨true, rfl⟩) ⟨_, rfl⟩ h
  · rintro (hop | hop)
    · exact flags_of_flag hop (fun b => { m.cpu.regs.flags with direction := b })
        (fun b => ⟨false, rfl⟩) ⟨_, rfl⟩ h
    · exact flags_of_flag hop (fun b => { m.cpu.regs.flags with direction := b })
        (fun b => ⟨true, rfl⟩) ⟨_, rfl⟩ h
  · rintro (hNone | ⟨hop, hNot⟩)
    · obtain ⟨hRest, hLoads⟩ := Bool.or_eq_false_iff.1 hNone
      obtain ⟨hFlags, hStatus⟩ := Bool.or_eq_false_iff.1 hRest
      refine holds_of_perform (S := (· = m.cpu.regs.flags)) hLoads
        (fun hSets => absurd (hStatus.symm.trans hSets) Bool.false_ne_true) ?_ h rfl
      intro op hop
      rw [show (decode f c).operation = .flag op from hop] at hFlags
      exact absurd hFlags.symm Bool.false_ne_true
    · exact hServed hop hNot

/-- ADD AL,FFh under the trap and the direction flag carries, and leaves both on. -/
theorem flags_frame_add :
    let m : Machine :=
      { cpu :=
          { model := .i80386
            regs :=
              { gprs := { eax := 1 }
                flags := { trap := true, direction := true } } }
        bus := { ram := ⟨⟨#[0x04, 0xFF]⟩⟩ } }
    let i := decode m.cpu.features (.ofBus m.bus 0 0 false)
    m.Calm ∧ perform i m = .ok () (after (perform i) m) ∧ ¬ WritesControl i m ∧
      (after (perform i) m).cpu.regs.flags.carry = true ∧
      (after (perform i) m).cpu.regs.flags.SameControl m.cpu.regs.flags := by
  intro m i
  have hCalm : m.Calm := fun d hd => absurd hd List.not_mem_nil
  have hOk : perform i m = .ok () (after (perform i) m) := ok_after (by decide +kernel)
  have hWrites : ¬ WritesControl i m := by
    have hop : i.operation = .binary .add := by decide +kernel
    rintro (hList | hVectored)
    · rw [hop] at hList
      exact absurd hList (by decide)
    · cases hop.symm.trans hVectored.1
  exact ⟨hCalm, hOk, hWrites, by decide +kernel, (flags_frame hCalm hOk).1 hWrites⟩

end Exec

end X86
