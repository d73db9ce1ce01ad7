import X86.Proofs.Encoding.Locality
import X86.Proofs.Encoding.Operands
import X86.Proofs.Machine.Gate
import X86.Proofs.Machine.Run

/-!
# What handlers raise

A handler refuses an instruction as an invalid opcode only because of an operand that it cannot work
with. What the decoder yields has none of these, so only the instructions that need protected mode
are left. Of the other exceptions three are traps, and each of them belongs to one instruction. The
checks on the way to memory, segments, ports and system registers refuse with faults.

* `Exec.Lawful`: the computation stops for no other reason than an exception, and not for an invalid
  opcode.
* `Exec.Checked`: nor for a trap.
* `checked_…`: one lemma for each handler, from the kinds of its operands.
* `Exec.perform_decoded`: **a decoded instruction is refused as an invalid opcode exactly if it
  needs protected mode and the processor is in real mode.**
* `Exec.trap_of_perform`: **in real mode only INT3, INTO and the coprocessor escape raise a trap.**
-/

namespace X86

open Operand (Kind)

/-- The exception is neither an invalid opcode nor a trap. -/
def Exception.IsCheck (e : Exception) : Prop :=
  e ≠ .invalidOpcode ∧ e.isTrap = false

instance (e : Exception) : Decidable e.IsCheck := inferInstanceAs (Decidable (_ ∧ _))

/-! ### Places -/

/-- The place can be written. -/
def Place.IsWritable : Place → Prop
  | .reg r => r.isSegment = false
  | .mem _ => True
  | .value _ | .nowhere => False

theorem Place.IsWritable.ne_nowhere {p : Place} (hp : p.IsWritable) : p ≠ .nowhere := by
  rintro rfl
  exact hp

namespace Cpu

variable {o : Operand}

theorem resolve_ne_nowhere (c : Cpu) (ho : o.kind.isSource = true) (wide : Bool) :
    c.resolve o wide ≠ .nowhere := by
  cases o <;> first | exact Place.noConfusion | cases ho

theorem isWritable_resolve (c : Cpu) (ho : o.kind.isTarget = true) (wide : Bool) :
    (c.resolve o wide).IsWritable := by
  cases o with
  | reg r =>
    cases r with
    | seg s => cases ho
    | _ => rfl
  | mem w segment address => exact trivial
  | _ => cases ho

theorem exists_resolve_mem (c : Cpu) (ho : o.kind = .memory) (wide : Bool) :
    ∃ l, c.resolve o wide = .mem l := by
  cases o with
  | reg r => cases r <;> cases ho
  | mem w segment address => exact ⟨_, rfl⟩
  | _ => cases ho

end Cpu

namespace Exec

variable {α β : Type} {x : Exec α} {f : α → Exec β} {i : Instruction} {o : Operand}

/-- The computation stops only with an exception, and that is no invalid opcode. -/
def Lawful (x : Exec α) : Prop :=
  ∀ m s m', x m = .error s m' → ∃ e, s = .fault e ∧ e ≠ .invalidOpcode

/-- The computation stops only with an exception, and that is no invalid opcode and no trap. -/
def Checked (x : Exec α) : Prop :=
  ∀ m s m', x m = .error s m' → ∃ e, s = .fault e ∧ e.IsCheck

namespace Checked

theorem lawful (hx : Checked x) : Lawful x := by
  intro m s m' h
  obtain ⟨e, hs, hNe, -⟩ := hx m s m' h
  exact ⟨e, hs, hNe⟩

/-! ### Sequences -/

/-- A computation that always answers. -/
theorem of_answers (h : ∀ m, ∃ a m', x m = .ok a m') : Checked x := by
  intro m s m' hError
  obtain ⟨a, m₁, hOk⟩ := h m
  cases hOk.symm.trans hError

theorem pure (a : α) : Checked (Pure.pure a : Exec α) := of_answers fun m => ⟨a, m, rfl⟩

theorem fault {e : Exception} (he : e.IsCheck) : Checked (Exec.fault e : Exec α) := by
  rintro m s m' h
  cases h
  exact ⟨e, rfl, he⟩

theorem bind (hx : Checked x) (hf : ∀ a, Checked (f a)) : Checked (x >>= f) := by
  intro m s m' h
  rcases bind_eq_error.1 h with h | ⟨a, m₁, -, h⟩
  · exact hx m s m' h
  · exact hf a m₁ s m' h

theorem ite {p : Prop} [Decidable p] {y : Exec α} (hx : Checked x) (hy : Checked y) :
    Checked (if p then x else y) := by
  split
  · exact hx
  · exact hy

theorem get : Checked get := of_answers fun m => ⟨m, m, rfl⟩

theorem cpu : Checked cpu := of_answers fun m => ⟨m.cpu, m, rfl⟩

theorem regs : Checked regs := of_answers fun m => ⟨m.cpu.regs, m, rfl⟩

theorem flags : Checked flags := of_answers fun m => ⟨m.cpu.regs.flags, m, rfl⟩

theorem modify (g : Machine → Machine) : Checked (modify g : Exec Unit) :=
  of_answers fun m => ⟨(), g m, rfl⟩

theorem modifyCpu (g : Cpu → Cpu) : Checked (modifyCpu g) := modify _

theorem modifyRegs (g : Registers → Registers) : Checked (modifyRegs g) := modifyCpu _

theorem setFlags (f : Flags) : Checked (setFlags f) := modifyCpu _

theorem writeRegister (r : Register) (v : UInt32) : Checked (writeRegister r v) := modifyCpu _

theorem log (e : LogEntry) : Checked (log e) := modify _

theorem check {r : Except Exception α} (hr : ∀ e, r = .error e → e.IsCheck) :
    Checked (check r) := by
  cases r with
  | ok a => exact pure a
  | error e => exact fault (hr e rfl)

theorem requirePrivilege (c : Cpu) : Checked (Exec.check c.requirePrivilege) := by
  refine check fun e he => ?_
  rw [Cpu.requirePrivilege] at he
  split at he <;> cases he
  decide

theorem requireIo (c : Cpu) : Checked (Exec.check c.requireIo) := by
  refine check fun e he => ?_
  rw [Cpu.requireIo] at he
  split at he <;> cases he
  decide

/-! ### Memory and operands -/

theorem isCheck_accessFault (s : SegReg) : (Cpu.accessFault s).IsCheck := by
  rw [Cpu.accessFault]
  split <;> decide

theorem readMem (l : Location) (w : Width) : Checked (readMem l w) := by
  intro m s m' h
  rw [readMem_eq] at h
  split at h <;> cases h
  exact ⟨_, rfl, isCheck_accessFault l.seg⟩

theorem writeMem (l : Location) (w : Width) (v : UInt32) : Checked (writeMem l w v) := by
  intro m s m' h
  rw [writeMem_eq] at h
  split at h <;> cases h
  exact ⟨_, rfl, isCheck_accessFault l.seg⟩

theorem readPlace {p : Place} (hp : p ≠ .nowhere) (w : Width) : Checked (readPlace p w) := by
  cases p with
  | reg r => exact of_answers fun m => ⟨w.truncate (m.cpu.regs.read r), m, rfl⟩
  | mem l => exact readMem l w
  | value v => exact of_answers fun m => ⟨w.truncate v, m, rfl⟩
  | nowhere => exact absurd rfl hp

theorem writePlace {p : Place} (hp : p.IsWritable) (w : Width) (v : UInt32) :
    Checked (writePlace p w v) := by
  cases p with
  | reg r =>
    have hr : r.isSegment = false := hp
    rw [Exec.writePlace, if_neg (by simp [hr])]
    exact writeRegister r _
  | mem l => exact writeMem l w v
  | value _ | nowhere => exact hp.elim

/-- The end of most handlers: the result goes to its place, then the flags are set. -/
theorem writeBack {p : Place} (hp : p.IsWritable) (w : Width) (v : UInt32) (f : Flags) :
    Checked (do Exec.writePlace p w v; Exec.setFlags f) :=
  (writePlace hp w v).bind fun _ => setFlags f

theorem afterSource (ho : o.kind.isSource = true) {f : Place → Exec β}
    (hf : ∀ p, p ≠ .nowhere → Checked (f p)) : Checked (place i o >>= f) := by
  intro m s m' h
  rw [bind_of_ok (place_apply i o m)] at h
  exact hf _ (m.cpu.resolve_ne_nowhere ho _) m s m' h

theorem afterTarget (ho : o.kind.isTarget = true) {f : Place → Exec β}
    (hf : ∀ p : Place, p.IsWritable → Checked (f p)) : Checked (place i o >>= f) := by
  intro m s m' h
  rw [bind_of_ok (place_apply i o m)] at h
  exact hf _ (m.cpu.isWritable_resolve ho _) m s m' h

theorem location (ho : o.kind = .memory) : Checked (location i o) := by
  refine of_answers fun m => ?_
  obtain ⟨l, hl⟩ := m.cpu.exists_resolve_mem ho i.addr32
  refine ⟨l, m, (bind_of_ok (place_apply i o m)).trans ?_⟩
  rw [hl]
  rfl

theorem readFar (l : Location) (w : Width) : Checked (readFar l w) :=
  (readMem _ _).bind fun _ => (readMem _ _).bind fun _ => pure _

theorem port (ho : o.kind.isSource = true) : Checked (port i o) :=
  afterSource ho fun _ hp => (readPlace hp _).bind fun _ => pure _

/-! ### The stack -/

theorem push (v : UInt32) (w : Width) : Checked (push v w) :=
  cpu.bind fun _ => (writeMem _ _ _).bind fun _ => modifyCpu _

theorem pop (w : Width) : Checked (pop w) :=
  cpu.bind fun _ => (readMem _ _).bind fun _ => (modifyCpu _).bind fun _ => pure _

theorem pushList (w : Width) (vs : List UInt32) : Checked (pushList w vs) := by
  induction vs with
  | nil => exact pure ()
  | cons v vs ih => exact (push v w).bind fun _ => ih

theorem popList (w : Width) (n : Nat) (vs : List UInt32) : Checked (popList w n vs) := by
  induction n generalizing vs with
  | zero => exact pure vs
  | succ n ih => exact (pop w).bind fun v => ih (v :: vs)

/-! ### Segments, interrupts and ports -/

theorem isCheck_of_isRefusal {e : Exception} (he : e.IsRefusal) : e.IsCheck := by
  cases he <;> exact ⟨Exception.noConfusion, rfl⟩

theorem loadSegment (s : SegReg) (selector : UInt16) : Checked (loadSegment s selector) := by
  refine get.bind fun m => ite (modifyCpu _) (ite (ite (fault (by decide)) (modifyCpu _)) ?_)
  refine (check fun e he => ?_).bind fun r => ?_
  · exact isCheck_of_isRefusal (Cpu.isRefusal_of_lookupSegment he)
  · obtain ⟨entry, d⟩ := r
    exact of_answers fun m => ⟨(), _, loadEntry_apply s selector entry d m⟩

theorem loadSegmentHeld (s : SegReg) (selector : UInt16) : Checked (loadSegmentHeld s selector) :=
  (loadSegment s selector).bind fun _ => ite (modifyCpu _) (pure _)

theorem jumpFar (selector : UInt16) (v : UInt32) : Checked (jumpFar selector v) :=
  (loadSegment .cs selector).bind fun _ => modifyCpu _

theorem interrupt (vector : UInt8) (errorCode : Option UInt16) (software : Bool) :
    Checked (interrupt vector errorCode software) := by
  intro m s m' h
  obtain ⟨o, e, rfl, hRefused⟩ := refused_of_error h
  exact ⟨e, rfl, isCheck_of_isRefusal hRefused.isRefusal⟩

theorem input8 (n : UInt16) : Checked (input8 n) := by
  refine get.bind fun m => ?_
  split
  · exact (modify _).bind fun _ => pure _
  · exact (log _).bind fun _ => pure _

theorem input16 (n : UInt16) : Checked (input16 n) := by
  refine get.bind fun m => ?_
  split
  · exact (modify _).bind fun _ => pure _
  · exact (input8 _).bind fun _ => (input8 _).bind fun _ => pure _

theorem output8 (n : UInt16) (v : UInt8) : Checked (output8 n v) := by
  refine get.bind fun m => ?_
  split
  · exact modify _
  · exact log _

theorem output16 (n : UInt16) (v : UInt16) : Checked (output16 n v) := by
  refine get.bind fun m => ?_
  split
  · exact modify _
  · exact (output8 _ _).bind fun _ => output8 _ _

theorem input (n : UInt16) (w : Width) : Checked (input n w) := by
  cases w with
  | byte => exact (input8 n).bind fun _ => pure _
  | word => exact (input16 n).bind fun _ => pure _
  | dword => exact (input16 n).bind fun _ => (input16 _).bind fun _ => pure _

theorem output (n : UInt16) (w : Width) (v : UInt32) : Checked (output n w v) := by
  cases w with
  | byte => exact output8 n _
  | word => exact output16 n _
  | dword => exact (output16 n _).bind fun _ => output16 _ _

end Checked

/-! ### Arithmetic -/

section Arithmetic

theorem checked_binary (op : BinaryOp) (hDst : i.dst.kind.isTarget = true)
    (hSrc : i.src.kind.isSource = true) : Checked (binary op i) := by
  refine .afterTarget hDst fun dst hp => .afterSource hSrc fun src hq => ?_
  refine (Checked.readPlace hp.ne_nowhere _).bind fun a => (Checked.readPlace hq _).bind fun b => ?_
  refine Checked.flags.bind fun f => ?_
  by_cases hop : op = .cmp
  · simp only [hop, if_true]
    exact .setFlags _
  · simp only [hop, if_false]
    exact .writeBack hp _ _ _

theorem checked_test (hDst : i.dst.kind.isSource = true) (hSrc : i.src.kind.isSource = true) :
    Checked (test i) := by
  refine .afterSource hDst fun dst hp => .afterSource hSrc fun src hq => ?_
  refine (Checked.readPlace hp _).bind fun a => (Checked.readPlace hq _).bind fun b => ?_
  exact Checked.flags.bind fun f => .setFlags _

theorem checked_unary (op : UnaryOp) (hDst : i.dst.kind.isTarget = true) :
    Checked (unary op i) := by
  refine .afterTarget hDst fun dst hp => (Checked.readPlace hp.ne_nowhere _).bind fun a => ?_
  exact Checked.flags.bind fun f => .writeBack hp _ _ _

theorem checked_shift (op : ShiftOp) (hDst : i.dst.kind.isTarget = true)
    (hSrc : i.src.kind.isSource = true) : Checked (shift op i) := by
  refine .afterTarget hDst fun dst hp => .afterSource hSrc fun count hq => ?_
  refine (Checked.readPlace hp.ne_nowhere _).bind fun a => (Checked.readPlace hq _).bind fun n => ?_
  refine Checked.cpu.bind fun c => ?_
  dsimp only
  rw [requireShift_eq (canShift_shiftAmounts op i.size _)]
  exact (Checked.pure ()).bind fun _ => Checked.flags.bind fun f => .writeBack hp _ _ _

theorem checked_doubleShift {amounts : Width → UInt32 → List (Option Nat)}
    (hAmounts : ∀ w n, Alu.canShift 128 (amounts w n) = true)
    (compute : Width → UInt32 → UInt32 → UInt32 → Flags → UInt32 × Flags)
    (hDst : i.dst.kind.isTarget = true) (hSrc : i.src.kind.isSource = true)
    (hSrc2 : i.src2.kind.isSource = true) : Checked (doubleShift amounts compute i) := by
  refine .afterTarget hDst fun dst hp => .afterSource hSrc fun src hq => ?_
  refine .afterSource hSrc2 fun count hr => (Checked.readPlace hp.ne_nowhere _).bind fun a => ?_
  refine (Checked.readPlace hq _).bind fun b => (Checked.readPlace hr _).bind fun n => ?_
  rw [requireShift_eq (hAmounts i.size n)]
  exact (Checked.pure ()).bind fun _ => Checked.flags.bind fun f => .writeBack hp _ _ _

theorem checked_multiply (signed : Bool) (hDst : i.dst.kind.isSource = true) :
    Checked (multiply signed i) := by
  refine .afterSource hDst fun src hp => (Checked.readPlace hp _).bind fun b => ?_
  exact Checked.cpu.bind fun c => (Checked.modifyRegs _).bind fun _ => .setFlags _

theorem checked_multiplyCut (hDst : i.dst.kind.isTarget = true)
    (hSrc : i.src.kind.isSource = true)
    (hSrc2 : i.src2.kind = .absent ∨ i.src2.kind.isSource = true) : Checked (multiplyCut i) := by
  refine .afterTarget hDst fun dst hp => .afterSource hSrc fun src hq => ?_
  have hEnd (c : Cpu) (a b : UInt32) : Checked (do
      writePlace dst i.size (Alu.imul c.features i.size a b c.regs.flags).1.toUInt32
      setFlags (Alu.imul c.features i.size a b c.regs.flags).2) := .writeBack hp _ _ _
  refine Checked.cpu.bind fun c => ?_
  split
  · exact (Checked.readPlace hp.ne_nowhere _).bind fun a => (Checked.readPlace hq _).bind fun b =>
      (Checked.pure _).bind fun _ => hEnd c _ _
  · rename_i hPresent
    have hSource : i.src2.kind.isSource = true :=
      hSrc2.resolve_left fun h => hPresent (Operand.kind_eq_absent.1 h)
    exact .afterSource hSource fun imm hr => (Checked.readPlace hq _).bind fun a =>
      (Checked.readPlace hr _).bind fun b => (Checked.pure _).bind fun _ => hEnd c _ _

theorem checked_divide (signed : Bool) (hDst : i.dst.kind.isSource = true) :
    Checked (divide signed i) := by
  refine .afterSource hDst fun src hp => (Checked.readPlace hp _).bind fun d => ?_
  refine Checked.cpu.bind fun c => ?_
  dsimp only
  generalize (if signed then _ else _) = answer
  cases answer with
  | some r => exact .modifyRegs _
  | none => exact .fault (by decide)

theorem checked_decimal (op : DecimalOp) : Checked (decimal op) := by
  refine Checked.cpu.bind fun c => ?_
  cases op <;> exact (Checked.modifyRegs _).bind fun _ => .setFlags _

theorem checked_aam : Checked (aam i) := by
  refine Checked.regs.bind fun g => ?_
  split
  · exact (Checked.modifyRegs _).bind fun _ => .setFlags _
  · exact .fault (by decide)

theorem checked_aad : Checked (aad i) :=
  Checked.regs.bind fun _ => (Checked.modifyRegs _).bind fun _ => .setFlags _

theorem isWritable_bitPlace {dst : Place} (hp : dst.IsWritable) (w : Width) (src : Place)
    (n : UInt32) : (bitPlace w dst src n).IsWritable := by
  unfold bitPlace
  split
  · exact trivial
  · exact hp

theorem checked_bitTest (op : BitOp) (hDst : i.dst.kind.isTarget = true)
    (hSrc : i.src.kind.isSource = true) : Checked (bitTest op i) := by
  refine .afterTarget hDst fun dst hp => .afterSource hSrc fun src hq => ?_
  refine (Checked.readPlace hq _).bind fun n => ?_
  have hBit := isWritable_bitPlace hp i.size src n
  refine (Checked.readPlace hBit.ne_nowhere _).bind fun v => ?_
  dsimp only
  split
  · exact (Checked.writePlace hBit _ _).bind fun _ => Checked.flags.bind fun f => .setFlags _
  · exact Checked.flags.bind fun f => .setFlags _

theorem checked_bitScan (op : ScanOp) (hDst : i.dst.kind.isTarget = true)
    (hSrc : i.src.kind.isSource = true) : Checked (bitScan op i) := by
  refine .afterTarget hDst fun dst hp => .afterSource hSrc fun src hq => ?_
  refine (Checked.readPlace hq _).bind fun v => ?_
  split
  · exact (Checked.writePlace hp _ _).bind fun _ => Checked.flags.bind fun f => .setFlags _
  · exact Checked.flags.bind fun f => .setFlags _

end Arithmetic

/-! ### Data -/

section Data

theorem checked_setCr0 (v : UInt32) : Checked (setCr0 v) :=
  .of_answers fun m => by
    rw [setCr0, bind_of_ok (get_apply m)]
    dsimp only
    split <;> split <;> exact ⟨(), _, rfl⟩

/-- The three ways to copy. -/
theorem moves_iff {dst src : Kind} :
    dst.moves src = true ↔
      (dst = .special ∧ src = .wide) ∨ (dst = .wide ∧ src = .special) ∨
        (dst.isTarget = true ∨ dst = .selector) ∧ src.isSource = true := by
  cases dst <;> cases src <;> decide

theorem checked_movSpecial (h : i.dst.kind = .special ∧ i.src.kind = .wide ∨
    i.dst.kind = .wide ∧ i.src.kind = .special) : Checked (movSpecial i) := by
  refine Checked.cpu.bind fun c => (Checked.requirePrivilege c).bind fun _ => ?_
  refine Checked.regs.bind fun g => ?_
  rcases h with ⟨hDst, hSrc⟩ | ⟨hDst, hSrc⟩
  · obtain ⟨r, hSrc⟩ := Operand.kind_eq_wide.1 hSrc
    rcases Operand.kind_eq_special.1 hDst with ⟨n, hDst⟩ | ⟨n, hDst⟩
    · rw [hDst, hSrc]
      exact .ite (checked_setCr0 _) (.modifyRegs _)
    · rw [hDst, hSrc]
      exact .modifyRegs _
  · obtain ⟨r, hDst⟩ := Operand.kind_eq_wide.1 hDst
    rcases Operand.kind_eq_special.1 hSrc with ⟨n, hSrc⟩ | ⟨n, hSrc⟩
    all_goals
      rw [hDst, hSrc]
      exact .modifyRegs _

/-- A destination that is no selector can be written. -/
theorem isTarget_of_ne_selector {o : Operand} (ho : o.kind.isTarget = true ∨ o.kind = .selector)
    (hPlain : ∀ s, o ≠ .reg (.seg s)) : o.kind.isTarget = true := by
  refine ho.resolve_right fun h => ?_
  obtain ⟨s, hs⟩ := Operand.kind_eq_selector.1 h
  exact hPlain s hs

theorem checked_mov (h : i.dst.kind.moves i.src.kind = true) : Checked (mov i) := by
  rw [mov]
  rcases moves_iff.1 h with hSpecial | hSpecial | ⟨hDst, hSrc⟩
  · rcases Operand.kind_eq_special.1 hSpecial.1 with ⟨n, hDst⟩ | ⟨n, hDst⟩
    all_goals
      rw [hDst]
      exact checked_movSpecial (.inl hSpecial)
  · obtain ⟨r, hDst⟩ := Operand.kind_eq_wide.1 hSpecial.1
    rcases Operand.kind_eq_special.1 hSpecial.2 with ⟨n, hSrc⟩ | ⟨n, hSrc⟩
    all_goals
      rw [hDst, hSrc]
      exact checked_movSpecial (.inr hSpecial)
  · split
    case h_1 hEq | h_2 hEq =>
      rw [hEq] at hDst
      rcases hDst with h | h <;> cases h
    case h_3 hEq _ _ | h_4 hEq _ _ =>
      rw [hEq] at hSrc
      cases hSrc
    case h_5 =>
      refine .afterSource hSrc fun src hq => (Checked.readPlace hq _).bind fun v => ?_
      exact .loadSegmentHeld _ _
    case h_6 hPlain =>
      refine .afterTarget (isTarget_of_ne_selector hDst hPlain) fun dst hp => ?_
      exact Checked.regs.bind fun g => .writePlace hp _ _
    case h_7 hPlain _ _ _ =>
      refine .afterSource hSrc fun src hq => ?_
      refine .afterTarget (isTarget_of_ne_selector hDst hPlain) fun dst hp => ?_
      exact (Checked.readPlace hq _).bind fun v => .writePlace hp _ _

theorem checked_movExtend (signed : Bool) (hDst : i.dst.kind.isTarget = true)
    (hSrc : i.src.kind.isSource = true) : Checked (movExtend signed i) := by
  refine .afterSource hSrc fun src hq => .afterTarget hDst fun dst hp => ?_
  exact (Checked.readPlace hq _).bind fun v => .writePlace hp _ _

theorem checked_xchg (hDst : i.dst.kind.isTarget = true) (hSrc : i.src.kind.isTarget = true) :
    Checked (xchg i) := by
  refine .afterTarget hDst fun dst hp => .afterTarget hSrc fun src hq => ?_
  refine (Checked.readPlace hp.ne_nowhere _).bind fun a => ?_
  refine (Checked.readPlace hq.ne_nowhere _).bind fun b => ?_
  exact (Checked.writePlace hp _ _).bind fun _ => .writePlace hq _ _

theorem checked_lea (hDst : i.dst.kind.isTarget = true) (hSrc : i.src.kind = .memory) :
    Checked (lea i) :=
  .afterTarget hDst fun _ hp => (Checked.location hSrc).bind fun _ => .writePlace hp _ _

theorem checked_loadFar (s : SegReg) (hDst : i.dst.kind.isTarget = true)
    (hSrc : i.src.kind = .memory) : Checked (loadFar s i) := by
  refine (Checked.location hSrc).bind fun l => (Checked.readFar l _).bind fun v => ?_
  refine (Checked.loadSegment s _).bind fun _ => ?_
  exact .afterTarget hDst fun dst hp => .writePlace hp _ _

theorem checked_xlat : Checked (xlat i) :=
  Checked.regs.bind fun _ => (Checked.readMem _ _).bind fun _ => .modifyRegs _

theorem checked_flag (op : FlagOp) : Checked (flag op) := by
  refine Checked.cpu.bind fun c => ?_
  have hEnd : Checked (if op = .sti ∧ !c.regs.flags.interrupt then do
      holdInterrupts
      setFlags (changeFlag op c.regs.flags) else setFlags (changeFlag op c.regs.flags)) :=
    .ite ((Checked.modifyCpu _).bind fun _ => .setFlags _) (.setFlags _)
  exact .ite ((Checked.requireIo c).bind fun _ => hEnd) hEnd

theorem checked_inputPort (hDst : i.dst.kind.isTarget = true) (hSrc : i.src.kind.isSource = true) :
    Checked (inputPort i) := by
  refine Checked.cpu.bind fun c => (Checked.requireIo c).bind fun _ => ?_
  refine (Checked.port hSrc).bind fun n => (Checked.input n _).bind fun v => ?_
  exact .afterTarget hDst fun dst hp => .writePlace hp _ _

theorem checked_outputPort (hDst : i.dst.kind.isSource = true)
    (hSrc : i.src.kind.isSource = true) : Checked (outputPort i) := by
  refine Checked.cpu.bind fun c => (Checked.requireIo c).bind fun _ => ?_
  refine (Checked.port hDst).bind fun n => .afterSource hSrc fun src hq => ?_
  exact (Checked.readPlace hq _).bind fun v => .output _ _ _

theorem checked_setcc (c : Condition) (hDst : i.dst.kind.isTarget = true) : Checked (setcc c i) :=
  .afterTarget hDst fun _ hp => Checked.flags.bind fun _ => .writePlace hp _ _

end Data

/-! ### The stack -/

section Stack

theorem checked_pushOperand (hDst : i.dst.kind.isSource = true) : Checked (pushOperand i) := by
  have hValue : Checked (pushedValue i) := by
    refine Checked.cpu.bind fun c => ?_
    split
    · exact .pure _
    · exact .ite (.pure _) (.afterSource hDst fun p hp => .readPlace hp _)
  exact hValue.bind fun v => .push v _

theorem checked_popOperand (hDst : i.dst.kind.isTarget = true ∨ i.dst.kind = .selector) :
    Checked (popOperand i) := by
  refine (Checked.pop _).bind fun v => ?_
  split
  · exact .loadSegmentHeld _ _
  · rename_i hPlain
    exact .afterTarget (isTarget_of_ne_selector hDst hPlain) fun dst hp => .writePlace hp _ _

theorem checked_pusha : Checked (pusha i) := Checked.regs.bind fun _ => .pushList _ _

theorem checked_popa : Checked (popa i) := (Checked.popList _ _ _).bind fun _ => .modifyRegs _

theorem checked_pushf : Checked (pushf i) := Checked.cpu.bind fun _ => .push _ _

theorem checked_popf : Checked (popf i) := (Checked.pop _).bind fun _ => .modifyCpu _

theorem checked_copyFrames (w : Width) (n : Nat) (bp : UInt32) : Checked (copyFrames w n bp) := by
  induction n generalizing bp with
  | zero => exact .pure ()
  | succ n ih =>
    exact Checked.cpu.bind fun c => (Checked.readMem _ _).bind fun v =>
      (Checked.push v w).bind fun _ => ih _

theorem checked_enter : Checked (enter i) := by
  refine Checked.regs.bind fun g => (Checked.push _ _).bind fun _ => Checked.cpu.bind fun c => ?_
  have hEnd (frame size : UInt32) : Checked (do
      writeRegister (stackView i.size .bp) frame
      modifyCpu fun c => c.setStackPointer (c.stackPointer - size)) :=
    (Checked.writeRegister _ _).bind fun _ => .modifyCpu _
  exact .ite ((checked_copyFrames _ _ _).bind fun _ => (Checked.push _ _).bind fun _ => hEnd _ _)
    (hEnd _ _)

theorem checked_leave : Checked (leave i) :=
  (Checked.modifyCpu _).bind fun _ => (Checked.pop _).bind fun _ => .writeRegister _ _

end Stack

/-! ### Strings -/

section Strings

theorem checked_compareElements (w : Width) (a b : UInt32) : Checked (compareElements w a b) :=
  Checked.flags.bind fun _ => .setFlags _

theorem checked_stringElement (op : StringOp) : Checked (stringElement op i) := by
  have hAdvance (r : Gpr) : Checked (advance i r) := .modifyRegs _
  refine Checked.cpu.bind fun c => ?_
  cases op with
  | movs =>
    exact (Checked.readMem _ _).bind fun v => (Checked.writeMem _ _ _).bind fun _ =>
      (hAdvance .si).bind fun _ => hAdvance .di
  | cmps =>
    exact (Checked.readMem _ _).bind fun a => (Checked.readMem _ _).bind fun b =>
      (checked_compareElements _ _ _).bind fun _ => (hAdvance .si).bind fun _ => hAdvance .di
  | scas =>
    exact (Checked.readMem _ _).bind fun b => (checked_compareElements _ _ _).bind fun _ =>
      hAdvance .di
  | lods =>
    exact (Checked.readMem _ _).bind fun v => (Checked.writeRegister _ _).bind fun _ => hAdvance .si
  | stos => exact (Checked.writeMem _ _ _).bind fun _ => hAdvance .di
  | ins =>
    exact (Checked.requireIo c).bind fun _ => (Checked.input _ _).bind fun v =>
      (Checked.writeMem _ _ _).bind fun _ => hAdvance .di
  | outs =>
    exact (Checked.requireIo c).bind fun _ => (Checked.readMem _ _).bind fun v =>
      (Checked.output _ _ _).bind fun _ => hAdvance .si

theorem checked_repeatElement (mode : RepeatMode) {element : Exec Unit} (h : Checked element)
    (counter : Register) (n : Nat) : Checked (repeatElement mode element counter n) := by
  induction n with
  | zero => exact .pure ()
  | succ n ih =>
    refine h.bind fun _ => (Checked.writeRegister _ _).bind fun _ => ?_
    refine (Checked.modifyCpu _).bind fun _ => Checked.flags.bind fun f => ?_
    exact .ite (.pure ()) ih

theorem checked_repeated (mode : RepeatMode) {element : Exec Unit} (h : Checked element) :
    Checked (repeated mode element i) :=
  Checked.regs.bind fun _ => checked_repeatElement mode h _ _

end Strings

/-! ### Control transfer -/

section Control

theorem checked_nearTarget (hDst : i.dst.kind.isSource = true) : Checked (nearTarget i) :=
  .afterSource hDst fun _ hp => .readPlace hp _

theorem checked_jumpNear (hDst : i.dst.kind.isSource = true) : Checked (jumpNear i) :=
  (checked_nearTarget hDst).bind fun _ => .modifyCpu _

theorem checked_callNear (hDst : i.dst.kind.isSource = true) : Checked (callNear i) :=
  (checked_nearTarget hDst).bind fun _ => Checked.regs.bind fun _ =>
    (Checked.push _ _).bind fun _ => .modifyCpu _

theorem checked_farTarget (hDst : i.dst.kind = .far ∨ i.dst.kind = .memory) :
    Checked (farTarget i) := by
  rw [farTarget]
  split
  · exact .pure _
  · rename_i hFar
    have hMemory : i.dst.kind = .memory := by
      refine hDst.resolve_left fun h => ?_
      obtain ⟨segment, offset, hd⟩ := Operand.kind_eq_far.1 h
      exact hFar segment offset hd
    exact (Checked.location hMemory).bind fun l => .readFar l _

theorem checked_jumpFarOperand (hDst : i.dst.kind = .far ∨ i.dst.kind = .memory) :
    Checked (jumpFarOperand i) :=
  (checked_farTarget hDst).bind fun _ => .jumpFar _ _

theorem checked_callFar (hDst : i.dst.kind = .far ∨ i.dst.kind = .memory) : Checked (callFar i) :=
  (checked_farTarget hDst).bind fun _ => Checked.regs.bind fun _ => (Checked.push _ _).bind fun _ =>
    (Checked.push _ _).bind fun _ => .jumpFar _ _

theorem checked_release : Checked (release i) := by
  rw [release]
  split
  · exact .modifyCpu _
  · exact .pure ()

theorem checked_returnNear : Checked (returnNear i) :=
  (Checked.pop _).bind fun _ => (Checked.modifyCpu _).bind fun _ => checked_release

theorem checked_returnFar : Checked (returnFar i) :=
  (Checked.pop _).bind fun _ => (Checked.pop _).bind fun _ => (Checked.jumpFar _ _).bind fun _ =>
    checked_release

theorem checked_iret (w : Width) : Checked (iret w) :=
  (Checked.pop w).bind fun _ => (Checked.pop w).bind fun _ => (Checked.pop w).bind fun _ =>
    (Checked.jumpFar _ _).bind fun _ => .modifyCpu _

theorem checked_jcc (c : Condition) (hDst : i.dst.kind.isSource = true) : Checked (jcc c i) :=
  Checked.flags.bind fun _ => .ite (checked_jumpNear hDst) (.pure ())

theorem checked_loop (op : LoopOp) (hDst : i.dst.kind.isSource = true) : Checked (loop op i) := by
  refine Checked.regs.bind fun g => ?_
  have hEnd (count : UInt32) : Checked (do if loopTaken op count (← flags).zero then jumpNear i) :=
    Checked.flags.bind fun _ => .ite (checked_jumpNear hDst) (.pure ())
  by_cases hop : op = .jcxz
  · simp only [hop, if_true] at hEnd ⊢
    exact hEnd _
  · simp only [hop, if_false] at hEnd ⊢
    exact (Checked.writeRegister _ _).bind fun _ => hEnd _

theorem checked_int (hDst : i.dst.kind = .byte) : Checked (int i) := by
  obtain ⟨vector, hVector⟩ := Operand.kind_eq_byte.1 hDst
  have hServe : Checked (serveInterrupt vector) := .of_answers fun m => by
    rcases serveInterrupt_cases vector m with h | ⟨n, d, -, h⟩
    · exact ⟨false, m, h⟩
    · exact ⟨true, _, h⟩
  rw [int, hVector]
  exact hServe.bind fun served => .ite (.pure ()) (.interrupt _ _ _)

theorem checked_bound (hDst : i.dst.kind.isSource = true) (hSrc : i.src.kind = .memory) :
    Checked (bound i) := by
  refine .afterSource hDst fun p hp => (Checked.readPlace hp _).bind fun index => ?_
  refine (Checked.location hSrc).bind fun l => (Checked.readMem _ _).bind fun lower => ?_
  exact (Checked.readMem _ _).bind fun upper => .ite (.fault (by decide)) (.pure ())

theorem checked_hlt : Checked hlt := by
  refine Checked.get.bind fun m => (Checked.requirePrivilege _).bind fun _ => ?_
  split
  · exact (Checked.log _).bind fun _ => (Checked.modifyCpu _).bind fun _ => .modifyCpu _
  · exact .modifyCpu _

end Control

/-! ### The system -/

section System

theorem checked_loadTable (t : SystemTable) (hDst : i.dst.kind = .memory) :
    Checked (loadTable t i) := by
  refine Checked.cpu.bind fun c => (Checked.requirePrivilege c).bind fun _ => ?_
  refine (Checked.location hDst).bind fun l => (Checked.readMem _ _).bind fun limit => ?_
  refine (Checked.readMem _ _).bind fun base => ?_
  exact (Checked.modifyCpu _).bind fun _ => .log _

theorem checked_storeTable (t : SystemTable) (hDst : i.dst.kind = .memory) :
    Checked (storeTable t i) :=
  (Checked.location hDst).bind fun _ => Checked.cpu.bind fun _ =>
    (Checked.writeMem _ _ _).bind fun _ => .writeMem _ _ _

theorem checked_lmsw (hDst : i.dst.kind.isSource = true) : Checked (lmsw i) := by
  refine Checked.cpu.bind fun c => (Checked.requirePrivilege c).bind fun _ => ?_
  exact .afterSource hDst fun p hp => (Checked.readPlace hp _).bind fun v => checked_setCr0 _

theorem checked_smsw (hDst : i.dst.kind.isTarget = true) : Checked (smsw i) :=
  .afterTarget hDst fun _ hp => Checked.cpu.bind fun _ => .writePlace hp _ _

theorem checked_clts : Checked clts :=
  Checked.cpu.bind fun c => (Checked.requirePrivilege c).bind fun _ => .modifyCpu _

end System

/-! ### Protected mode only -/

section Protection

/-- The computation asks for protected mode first, and is lawful from there on. -/
def Guarded (x : Exec Unit) : Prop :=
  ∃ rest : Cpu → Exec Unit, (∀ c, Lawful (rest c)) ∧
    x = do
      let c ← cpu
      check c.requireProtection
      rest c

theorem Guarded.of_protectedMode {x : Exec Unit} (h : Guarded x) {m : Machine}
    (hm : m.cpu.protectedMode = true) : ∃ y, Lawful y ∧ x m = y m := by
  obtain ⟨rest, hRest, rfl⟩ := h
  refine ⟨rest m.cpu, hRest _, ?_⟩
  rw [bind_of_ok (cpu_apply m), Cpu.requireProtection, if_pos hm]
  rfl

theorem Guarded.of_realMode {x : Exec Unit} (h : Guarded x) {m : Machine}
    (hm : m.cpu.protectedMode = false) : x m = .error (.fault .invalidOpcode) m := by
  obtain ⟨rest, -, rfl⟩ := h
  rw [bind_of_ok (cpu_apply m), Cpu.requireProtection, if_neg (by simp [hm])]
  rfl

theorem guarded_arpl (hDst : i.dst.kind.isTarget = true) (hSrc : i.src.kind.isSource = true) :
    Guarded (arpl i) := by
  refine ⟨_, fun _ => Checked.lawful ?_, rfl⟩
  refine .afterTarget hDst fun dst hp => .afterSource hSrc fun src hq => ?_
  refine (Checked.readPlace hp.ne_nowhere _).bind fun a => (Checked.readPlace hq _).bind fun b => ?_
  have hEnd (raised : Bool) : Checked (do setFlags { ← flags with zero := raised }) :=
    Checked.flags.bind fun _ => .setFlags _
  exact .ite ((Checked.writePlace hp _ _).bind fun _ => hEnd _) (hEnd _)

theorem guarded_loadSelector (s : SystemSegment) (hDst : i.dst.kind.isSource = true) :
    Guarded (loadSelector s i) := by
  refine ⟨_, fun c => Checked.lawful ?_, rfl⟩
  refine (Checked.requirePrivilege c).bind fun _ => .afterSource hDst fun p hp => ?_
  exact (Checked.readPlace hp _).bind fun v => (Checked.modifyCpu _).bind fun _ => .log _

theorem guarded_storeSelector (s : SystemSegment) (hDst : i.dst.kind.isTarget = true) :
    Guarded (storeSelector s i) :=
  ⟨_, fun _ => Checked.lawful (.afterTarget hDst fun _ hp => .writePlace hp _ _), rfl⟩

end Protection

end Exec

/-! ### Decoded instructions -/

/-- The operations on selectors that only protected mode has. -/
def Operation.needsProtection : Operation → Bool
  | .arpl | .loadSelector _ | .storeSelector _ => true
  | _ => false

theorem Operation.isString_of_needsProtection {o : Operation} (h : o.needsProtection = true) :
    o.isString = false := by
  cases o <;> first | rfl | cases h

/-- The trap that an operation raises, if it raises one. -/
def Operation.trap? : Operation → Option Exception
  | .int3 => some .breakpoint
  | .into => some .overflow
  | .escape => some .deviceNotAvailable
  | _ => none

/-- The trap of an operation is a trap, no invalid opcode, and of no string. -/
theorem Operation.of_trap {o : Operation} {e : Exception} (h : o.trap? = some e) :
    e.isTrap = true ∧ e ≠ .invalidOpcode ∧ o.isString = false := by
  cases o with
  | int3 | into | escape =>
    cases h
    decide
  | _ => cases h

namespace Exec

variable {i : Instruction}

theorem guarded_once (h : i.Accepted) (hNeeds : i.operation.needsProtection = true) :
    Guarded (once i) := by
  rw [Instruction.Accepted] at h
  rw [once]
  cases hop : i.operation <;> rw [hop] at h hNeeds <;> try cases hNeeds
  case arpl =>
    obtain ⟨hDst, hSrc⟩ := Bool.and_eq_true_iff.1 h
    exact guarded_arpl hDst hSrc
  case loadSelector s => exact guarded_loadSelector s h
  case storeSelector s => exact guarded_storeSelector s h

theorem checked_once (h : i.Accepted) (hNeeds : i.operation.needsProtection = false)
    (hTrap : i.operation.trap? = none) : Checked (once i) := by
  rw [Instruction.Accepted] at h
  rw [once]
  cases hop : i.operation <;> rw [hop] at h hNeeds hTrap
  all_goals
    simp only [Operation.accepts, Bool.and_eq_true, Bool.or_eq_true, decide_eq_true_eq] at h
  case arpl | loadSelector | storeSelector => cases hNeeds
  case int3 | into | escape => cases hTrap
  case invalid => cases h
  case binary op => exact checked_binary op h.1 h.2
  case unary op => exact checked_unary op h
  case shift op => exact checked_shift op h.1 h.2
  case shiftLeftDouble => exact checked_doubleShift canShift_shldAmounts _ h.1.1 h.1.2 h.2
  case shiftRightDouble => exact checked_doubleShift canShift_shrdAmounts _ h.1.1 h.1.2 h.2
  case multiply signed => exact checked_multiply signed h
  case multiplyCut => exact checked_multiplyCut h.1.1 h.1.2 h.2
  case divide signed => exact checked_divide signed h
  case decimal op => exact checked_decimal op
  case aam => exact checked_aam
  case aad => exact checked_aad
  case test => exact checked_test h.1 h.2
  case bitTest op => exact checked_bitTest op h.1 h.2
  case bitScan op => exact checked_bitScan op h.1 h.2
  case extendAccumulator | extendData | lahf | salc => exact .modifyRegs _
  case sahf => exact Checked.regs.bind fun _ => .setFlags _
  case mov => exact checked_mov h
  case movExtend signed => exact checked_movExtend signed h.1 h.2
  case xchg => exact checked_xchg h.1 h.2
  case lea => exact checked_lea h.1 h.2
  case loadFar s => exact checked_loadFar s h.1 h.2
  case xlat => exact checked_xlat
  case push => exact checked_pushOperand h
  case pop => exact checked_popOperand h
  case pusha => exact checked_pusha
  case popa => exact checked_popa
  case pushf => exact checked_pushf
  case popf => exact checked_popf
  case flag op => exact checked_flag op
  case input => exact checked_inputPort h.1 h.2
  case output => exact checked_outputPort h.1 h.2
  case setcc c => exact checked_setcc c h
  case string op => exact checked_stringElement op
  case jumpNear => exact checked_jumpNear h
  case jumpFar => exact checked_jumpFarOperand h
  case jcc c => exact checked_jcc c h
  case loop op => exact checked_loop op h
  case callNear => exact checked_callNear h
  case callFar => exact checked_callFar h
  case returnNear => exact checked_returnNear
  case returnFar => exact checked_returnFar
  case enter => exact checked_enter
  case leave => exact checked_leave
  case bound => exact checked_bound h.1 h.2
  case int => exact checked_int h
  case iret => exact checked_iret _
  case hlt => exact checked_hlt
  case nop | wait => exact .pure ()
  case clts => exact checked_clts
  case lmsw => exact checked_lmsw h
  case smsw => exact checked_smsw h
  case loadTable t => exact checked_loadTable t h
  case storeTable t => exact checked_storeTable t h

theorem checked_perform (h : i.Accepted) (hNeeds : i.operation.needsProtection = false)
    (hTrap : i.operation.trap? = none) : Checked (perform i) := by
  have hOnce := checked_once h hNeeds hTrap
  rw [perform]
  split
  · exact hOnce
  · exact checked_repeated _ hOnce

/-- A trap is raised before anything else has happened. -/
theorem perform_of_trap {e : Exception} (hRep : i.rep ≠ none → i.operation.isString = true)
    (hTrap : i.operation.trap? = some e) (m : Machine) :
    perform i m = .error (.fault e) m ∨ perform i m = .ok () m := by
  rw [perform_eq_once hRep (Operation.of_trap hTrap).2.2, once]
  cases hop : i.operation with
    rw [hop] at hTrap
  | int3 | escape =>
    cases hTrap
    exact .inl rfl
  | into =>
    cases hTrap
    cases hFlag : m.cpu.regs.flags.overflow with
    | true =>
      refine .inl ((bind_of_ok (flags_apply m)).trans ?_)
      rw [if_pos hFlag]
      rfl
    | false =>
      refine .inr ((bind_of_ok (flags_apply m)).trans ?_)
      rw [if_neg (by simp [hFlag])]
      rfl
  | _ => cases hTrap

theorem lawful_perform (h : i.Accepted) (hRep : i.rep ≠ none → i.operation.isString = true)
    (hNeeds : i.operation.needsProtection = false) : Lawful (perform i) := by
  cases hTrap : i.operation.trap? with
  | none => exact (checked_perform h hNeeds hTrap).lawful
  | some e =>
    intro m s m' hError
    rcases perform_of_trap hRep hTrap m with hRun | hRun
    · cases hRun.symm.trans hError
      exact ⟨e, rfl, (Operation.of_trap hTrap).2.1⟩
    · cases hRun.symm.trans hError

theorem guarded_perform (h : i.Accepted) (hNeeds : i.operation.needsProtection = true)
    (hRep : i.rep ≠ none → i.operation.isString = true) : Guarded (perform i) := by
  rw [perform_eq_once hRep (Operation.isString_of_needsProtection hNeeds)]
  exact guarded_once h hNeeds

/-- The decoder's own refusals are invalid opcodes. -/
theorem perform_of_invalid (hi : i.isValid = false)
    (hRep : i.rep ≠ none → i.operation.isString = true) (m : Machine) :
    ∃ m', perform i m = .error (.fault .invalidOpcode) m' := by
  cases hop : i.operation with
  | invalid bytes reason =>
    rw [perform_eq_once hRep (by rw [hop]; rfl), once, hop]
    exact ⟨_, rfl⟩
  | _ =>
    rw [Instruction.isValid, hop] at hi
    cases hi

/-- On a machine that has the operation, the instruction is lawful. -/
theorem lawful_of_supported (h : i.Accepted) (hRep : i.rep ≠ none → i.operation.isString = true)
    {m : Machine} (hm : i.operation.needsProtection = true → m.cpu.protectedMode = true) :
    ∃ x, Lawful x ∧ perform i m = x m := by
  cases hNeeds : i.operation.needsProtection with
  | false => exact ⟨_, lawful_perform h hRep hNeeds, rfl⟩
  | true => exact (guarded_perform h hNeeds hRep).of_protectedMode (hm hNeeds)

/-- Whatever stops a decoded instruction in real mode is an exception, and **only INT3, INTO and the
coprocessor escape raise a trap**, each of them its own and before anything else has happened. -/
theorem trap_of_perform {f : Features} {c : Code} {m m' : Machine} {s : Stop}
    (hReal : m.cpu.protectedMode = false) (h : perform (decode f c) m = .error s m') :
    ∃ e, s = .fault e ∧
      (e.isTrap = false ∨ e.isTrap = true ∧ (decode f c).operation.trap? = some e ∧ m' = m) := by
  cases hTrap : (decode f c).operation.trap? with
  | some e =>
    rcases perform_of_trap isString_of_rep hTrap m with hRun | hRun
    · cases hRun.symm.trans h
      exact ⟨e, rfl, .inr ⟨(Operation.of_trap hTrap).1, rfl, rfl⟩⟩
    · cases hRun.symm.trans h
  | none =>
    cases hValid : (decode f c).isValid with
    | false =>
      obtain ⟨m₁, hRun⟩ := perform_of_invalid hValid isString_of_rep m
      cases hRun.symm.trans h
      exact ⟨_, rfl, .inl rfl⟩
    | true =>
      have hAccepted := decode_accepted hValid
      cases hNeeds : (decode f c).operation.needsProtection with
      | true =>
        have hRun := (guarded_perform hAccepted hNeeds isString_of_rep).of_realMode hReal
        cases hRun.symm.trans h
        exact ⟨_, rfl, .inl rfl⟩
      | false =>
        obtain ⟨e, hs, -, he⟩ := checked_perform hAccepted hNeeds hTrap m s m' h
        exact ⟨e, hs, .inl he⟩

/-- **Decoder and handlers agree.** Whatever bytes a model decodes to an instruction, the handler
accepts its operands, only strings repeat, and performing it on any machine of the model stops for
no other reason than an exception. That is an invalid opcode exactly if the instruction needs
protected mode and the machine is in real mode; nothing else has happened then. So nothing writes to
a constant or to a missing operand, which would be an invalid opcode too. -/
theorem perform_decoded (m : Machine) (c : Code)
    (hValid : (decode m.cpu.features c).isValid = true) :
    let i := decode m.cpu.features c
    i.Accepted ∧ (i.rep ≠ none → i.operation.isString = true) ∧
      (∀ s m', perform i m = .error s m' → ∃ e, s = .fault e) ∧
      ∀ m', perform i m = .error (.fault .invalidOpcode) m' ↔
        i.operation.needsProtection = true ∧ m.cpu.protectedMode = false ∧ m' = m := by
  intro i
  have hAccepted : i.Accepted := decode_accepted hValid
  have hRep : i.rep ≠ none → i.operation.isString = true := isString_of_rep
  refine ⟨hAccepted, hRep, ?_⟩
  by_cases hReal : i.operation.needsProtection = true ∧ m.cpu.protectedMode = false
  · rw [(guarded_perform hAccepted hReal.1 hRep).of_realMode hReal.2]
    refine ⟨fun s m' h => ?_, fun m' => ⟨fun h => ?_, fun h => ?_⟩⟩
    · cases h
      exact ⟨_, rfl⟩
    · cases h
      exact ⟨hReal.1, hReal.2, rfl⟩
    · rw [h.2.2]
  · obtain ⟨x, hx, hEq⟩ := lawful_of_supported (m := m) hAccepted hRep fun hNeeds =>
      eq_true_of_ne_false fun hMode => hReal ⟨hNeeds, hMode⟩
    rw [hEq]
    refine ⟨fun s m' h => ?_, fun m' => iff_of_false (fun h => ?_) fun h => hReal ⟨h.1, h.2.1⟩⟩
    · obtain ⟨e, he, -⟩ := hx m s m' h
      exact ⟨e, he⟩
    · obtain ⟨e, he, hNe⟩ := hx m _ m' h
      cases he
      exact hNe rfl

/-- SLDT AX in real mode. -/
theorem perform_decoded_sldt :
    let m : Machine := { cpu := { model := .i80386 }, bus := .holding [0x0F, 0x00, 0xC0] }
    let i := decode m.cpu.features (.ofBus m.bus 0 0 false)
    i.isValid = true ∧ i.length = 3 ∧ perform i m = .error (.fault .invalidOpcode) m := by
  intro m i
  have hValid : i.isValid = true := by decide +kernel
  have h := (perform_decoded m (.ofBus m.bus 0 0 false) hValid).2.2.2 m
  exact ⟨hValid, by decide +kernel, h.2 ⟨by decide +kernel, by decide +kernel, rfl⟩⟩

end Exec

end X86
