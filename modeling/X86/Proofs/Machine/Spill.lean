import X86.Proofs.Exec.Memory
import X86.Proofs.Execute.Dispatch
import X86.Proofs.Machine.Gate

/-!
# What a fault leaves of memory

A snapshot does not hold memory. Most instructions store only after everything that can be refused,
so a fault finds memory as it was. Seven instructions do more before they fault: PUSHA, ENTER,
CALL FAR and INT have pushed values, INT has marked the code segment of its gate, SGDT and SIDT have
stored a limit, and INS has read a port. What they have stored stays there.

* `Instruction.spilled`: the bytes that an instruction can have stored at.
* `Exec.Stacked`, `Exec.Stacks`: so many values have been pushed, wherever the stack lies.
* `Exec.Converses`: a computation speaks to devices and leaves memory as it is.
* `Exec.spills_of_fault`: **a fault leaves memory as it was, except for these bytes.**
-/

namespace X86

/-! ### Which bytes -/

/-- The operation pushes several values, or stores something else with them. -/
def Operation.stacks : Operation → Bool
  | .pusha | .callFar | .enter | .int => true
  | _ => false

/-- The nesting level that ENTER is given. -/
def Operand.nesting : Operand → Nat
  | .imm8 v => v.toNat % 32
  | _ => 0

/-- The most values that an instruction has pushed when it faults. -/
def Instruction.pushedValues (i : Instruction) : Nat :=
  match i.operation with
  | .pusha => 7
  | .callFar | .int => 2
  | .enter => i.src.nesting
  | _ => 0

/-- The physical address of the access byte that an interrupt by instruction marks: the code segment
behind its gate has never been loaded. -/
def Cpu.gateMark (c : Cpu) (b : Bus) (o : Operand) (p : UInt32) : Prop :=
  ∃ vector g entry d, o = .imm8 vector ∧ c.openGate b vector true = .ok g ∧
    c.codeEntry b g.selector = .ok (entry, d) ∧ d.isAccessed = false ∧ p = b.physical (entry + 5)

/-- The physical addresses that an instruction can have stored at before a fault, apart from the
stack. It began with this processor and bus. -/
def Instruction.storedAside (i : Instruction) (c : Cpu) (b : Bus) (p : UInt32) : Prop :=
  match i.operation with
  | .int => c.gateMark b i.dst p
  | .storeTable _ => ∃ l, c.resolve i.dst i.addr32 = .mem l ∧ c.Touches b l .word p
  | _ => False

/-- The physical addresses that an instruction can have stored at when it faults with `n` bytes
pushed. -/
def Instruction.spilled (i : Instruction) (c : Cpu) (b : Bus) (n : Nat) (p : UInt32) : Prop :=
  c.frameBytes b n p ∨ i.storedAside c b p

namespace Exec

variable {α β : Type} {w : Width} {n k : Nat} {i : Instruction} {m m₁ m' : Machine}

/-! ### Pushed bytes -/

/-- `n` bytes have been pushed. No other byte of memory has changed; some of them may have gone to
a device. -/
structure Stacked (n : Nat) (m m' : Machine) : Prop where
  stack : (m.cpu.lowered n).SameStack m'.cpu
  bus : Bus.Alters (m.cpu.frameBytes m.bus n) m.bus m'.bus

namespace Stacked

theorem refl (m : Machine) : Stacked 0 m m := by
  refine ⟨?_, .refl m.bus⟩
  rw [Cpu.lowered_zero]
  exact .refl m.cpu

theorem trans (h : Stacked n m m₁) (h' : Stacked k m₁ m') : Stacked (n + k) m m' where
  stack := by
    rw [← Cpu.lowered_lowered]
    exact (h.stack.lowered k).trans h'.stack
  bus := by
    refine (h.bus.mono ?_).trans (h'.bus.mono ?_)
    · rintro p ⟨j, hj, rfl⟩
      exact ⟨j, by omega, rfl⟩
    · rintro p ⟨j, hj, rfl⟩
      refine ⟨n + j, by omega, ?_⟩
      rw [h.bus.physical_eq, h.stack.stackByte_eq, Cpu.stackByte_lowered]

end Stacked

theorem stacked_push {v : UInt32} (h : push v w m = .ok () m') : Stacked w.bytes m m' := by
  rw [push_eq] at h
  split at h <;> cases h
  refine ⟨.refl _, Cpu.alters_storeBytes _ _ v fun i hi => ?_⟩
  exact ⟨w.bytes - 1 - i, by omega, by rw [Cpu.byteAddress_lowered _ hi]⟩

theorem stacked_pushList {vs : List UInt32} (h : pushList w vs m = .ok () m') :
    Stacked (w.bytes * vs.length) m m' := by
  induction vs generalizing m with
  | nil =>
    cases h
    exact .refl _
  | cons v rest ih =>
    obtain ⟨_, m₁, hPush, hRest⟩ := bind_eq_ok.1 h
    rw [List.length_cons, Nat.mul_succ, Nat.add_comm]
    exact (stacked_push hPush).trans (ih hRest)

/-! ### Computations that push -/

/-- Where the computation faults, it has pushed at most `n` values of this width. -/
def Stacks (w : Width) (n : Nat) (x : Exec α) : Prop :=
  ∀ m e m', x m = .error (.fault e) m' → ∃ k ≤ n, Stacked (w.bytes * k) m m'

namespace Stacks

variable {x : Exec α} {f : α → Exec β}

theorem mono {n' : Nat} (hn : n ≤ n') (hx : Stacks w n x) : Stacks w n' x := by
  intro m e m' h
  obtain ⟨k, hk, hStacked⟩ := hx m e m' h
  exact ⟨k, Nat.le_trans hk hn, hStacked⟩

theorem of_atomic (hx : Atomic x) : Stacks w 0 x := by
  intro m e m' h
  rw [hx m _ m' h]
  exact ⟨0, Nat.le_refl 0, .refl m⟩

theorem after_reads (hx : Reads x) (hf : ∀ a, Stacks w n (f a)) : Stacks w n (x >>= f) := by
  intro m e m' h
  rcases bind_eq_error.1 h with h | ⟨a, m₁, hxm, h⟩
  · rw [hx.eq_of_error h]
    exact ⟨0, Nat.zero_le n, .refl m⟩
  · rw [hx.eq_of_ok hxm] at h
    exact hf a m e m' h

theorem before_sure {K : ChangeKind → Prop} (hx : Stacks w n x) (hf : ∀ a, Sure K (f a)) :
    Stacks w n (x >>= f) := by
  intro m e m' h
  rcases bind_eq_error.1 h with h | ⟨a, m₁, -, h⟩
  · exact hx m e m' h
  · exact absurd h ((hf a).faultless m₁ e m')

theorem push (v : UInt32) (w : Width) : Stacks w 0 (push v w) := of_atomic (.push v w)

theorem after_push {v : UInt32} {rest : Unit → Exec β} (hf : Stacks w n (rest ())) :
    Stacks w (n + 1) (Exec.push v w >>= rest) := by
  intro m e m' h
  rcases bind_eq_error.1 h with h | ⟨_, m₁, hPush, h⟩
  · rw [Atomic.push v w m _ m' h]
    exact ⟨0, Nat.zero_le _, .refl m⟩
  · obtain ⟨k, hk, hStacked⟩ := hf m₁ e m' h
    refine ⟨k + 1, by omega, ?_⟩
    rw [Nat.mul_succ, Nat.add_comm]
    exact (stacked_push hPush).trans hStacked

theorem pushList (vs : List UInt32) : Stacks w (vs.length - 1) (pushList w vs) := by
  induction vs with
  | nil => exact of_atomic fun _ _ _ h => by cases h
  | cons v rest ih =>
    cases rest with
    | nil => exact (push v w).before_sure (K := fun _ => True) fun _ => .pure ()
    | cons u rest => exact after_push ih

/-- Copying frame pointers pushes as many values. -/
theorem after_copyFrames {rest : Unit → Exec β} (hf : Stacks w n (rest ())) (count : Nat)
    (bp : UInt32) : Stacks w (n + count) (copyFrames w count bp >>= rest) := by
  induction count generalizing bp with
  | zero => exact hf
  | succ count ih =>
    simp only [copyFrames, bind_assoc]
    refine after_reads .cpu fun c => after_reads (.readMem _ _) fun v => ?_
    exact after_push (ih _)

end Stacks

/-! ### Instructions that push -/

theorem stacks_pusha (hop : i.operation = .pusha) : Stacks i.size i.pushedValues (pusha i) := by
  rw [Instruction.pushedValues, hop]
  exact .after_reads .regs fun _ => .pushList _

theorem stacks_callFar (hop : i.operation = .callFar) :
    Stacks i.size i.pushedValues (callFar i) := by
  rw [Instruction.pushedValues, hop]
  refine .after_reads (.farTarget i) fun t => .after_reads .regs fun g => ?_
  exact .after_push (.after_push (.of_atomic (.jumpFar _ _)))

/-- ENTER pushes one value more than its nesting level. At a fault the last one is missing. -/
theorem stacks_enter (hop : i.operation = .enter) : Stacks i.size i.pushedValues (enter i) := by
  have hEnd (frame : UInt32) (v : Cpu → UInt32) : Sure (fun _ => True) (do
      writeRegister (stackView i.size .bp) frame
      modifyCpu fun c => c.setStackPointer (v c)) :=
    (Sure.writeRegister trivial (isSegment_stackView _ _) frame).bind fun _ => .moveStack v
  have hRest (bp frame : UInt32) (v : Cpu → UInt32) :
      Stacks i.size (i.src.nesting - 1) (do
        copyFrames i.size (i.src.nesting - 1) bp
        Exec.push frame i.size
        writeRegister (stackView i.size .bp) frame
        modifyCpu fun c => c.setStackPointer (v c)) := by
    have hLast := (Stacks.push frame i.size).before_sure fun _ => hEnd frame v
    exact (hLast.after_copyFrames _ bp).mono (Nat.le_of_eq (Nat.zero_add _))
  rw [Instruction.pushedValues, hop]
  refine .after_reads .regs fun g => ?_
  rcases Nat.eq_zero_or_pos i.src.nesting with hZero | hPos
  · rw [hZero]
    refine (Stacks.push _ _).before_sure (K := fun _ => True) fun _ => Sure.cpu.bind fun c => ?_
    change Sure _ (if i.src.nesting > 0 then _ else _)
    rw [if_neg (Nat.not_lt.2 (Nat.le_of_eq hZero))]
    exact hEnd _ _
  · rw [← Nat.sub_add_cancel hPos]
    refine .after_push (.after_reads .cpu fun c => ?_)
    change Stacks _ _ (if i.src.nesting > 0 then _ else _)
    rw [if_pos hPos]
    exact hRest _ _ _

/-! ### Interrupts by instruction -/

/-- A handler's code segment is not the stack segment. -/
theorem sameStack_arrived (m : Machine) (selector : UInt16) (eip entry : UInt32) (d : Descriptor) :
    m.cpu.SameStack (arrived m selector eip entry d).cpu := by
  rw [cpu_arrived]
  exact ⟨rfl, rfl⟩

/-- The mark in a table entry changes its access byte. -/
theorem alters_arrived (m : Machine) (selector : UInt16) (eip entry : UInt32) (d : Descriptor) :
    Bus.Alters (fun p => d.isAccessed = false ∧ p = m.bus.physical (entry + 5)) m.bus
      (arrived m selector eip entry d).bus := by
  change Bus.Alters _ m.bus (markEntry m entry d).bus
  cases hd : d.isAccessed with
  | true =>
    rw [markEntry, if_pos hd]
    exact .refl m.bus
  | false =>
    rw [markEntry, if_neg (by rw [hd]; exact Bool.false_ne_true)]
    exact (Bus.alters_write8 _ _ _).mono fun p hp => ⟨rfl, hp⟩

/-- INT that faults has changed nothing, or it is stuck at the frame of its gate. -/
theorem exists_stacked_of_int {e : Exception} (h : int i m = .error (.fault e) m') :
    m' = m ∨ ∃ vector g entry d, i.dst = .imm8 vector ∧
      m.cpu.openGate m.bus vector true = .ok g ∧
      m.cpu.codeEntry m.bus g.selector = .ok (entry, d) ∧
      ∃ k ≤ 2, Stacked (g.width.bytes * k) (arrived m g.selector g.offset entry d) m' := by
  cases hDst : i.dst with
  | imm8 vector =>
    simp only [int, hDst] at h
    rcases serveInterrupt_cases vector m with hServe | ⟨_, _, -, hServe⟩
    · rw [bind_of_ok hServe] at h
      obtain ⟨o, e, -, hRefused⟩ := refused_of_error h
      cases hRefused with
      | vectors | table | gate | target => exact .inl rfl
      | @frame g entry d k _ hp hGate hEntry hk hBefore =>
        have hFrame : (m.cpu.gateFrame none).length = 3 := rfl
        have hStacked := stacked_pushList hBefore
        rw [List.length_take_of_le (Nat.le_of_lt hk)] at hStacked
        exact .inr ⟨vector, g, entry, d, rfl, hGate, hEntry, k, by omega, hStacked⟩
    · rw [bind_of_ok hServe] at h
      cases h
  | _ =>
    simp only [int, hDst] at h
    cases h
    exact .inl rfl

/-! ### Two stores, and a store after an answer -/

/-- The limit has been stored when the base is refused. -/
theorem alters_of_storeTable {t : SystemTable} {e : Exception}
    (h : storeTable t i m = .error (.fault e) m') :
    Bus.Alters (fun p => ∃ l, m.cpu.resolve i.dst i.addr32 = .mem l ∧
      m.cpu.Touches m.bus l .word p) m.bus m'.bus := by
  rw [storeTable, location, bind_assoc, bind_of_ok (place_apply i i.dst m)] at h
  cases hDst : m.cpu.resolve i.dst i.addr32 with
  | mem l =>
    rw [hDst] at h
    change (writeMem l .word (m.cpu.table t).limit.toUInt32 >>= fun _ =>
      writeMem (l.add 2) .dword (tableBase i.size (m.cpu.table t).base)) m = _ at h
    rcases bind_eq_error.1 h with hLimit | ⟨_, m₁, hLimit, hBase⟩
    · rw [Atomic.writeMem _ _ _ m _ m' hLimit]
      exact .refl m.bus
    · rw [Atomic.writeMem _ _ _ m₁ _ m' hBase]
      rw [writeMem_eq] at hLimit
      split at hLimit <;> cases hLimit
      exact Cpu.alters_storeBytes _ _ _ fun j hj => ⟨l, rfl, j, hj, rfl⟩
  | reg _ | value _ | nowhere =>
    rw [hDst] at h
    cases h
    exact .refl m.bus

/-- The computation speaks to devices, and leaves memory as it is. -/
def Converses (x : Exec α) : Prop := ∀ m, Bus.Alters (fun _ => False) m.bus (after x m).bus

namespace Converses

variable {x : Exec α} {f : α → Exec β}

theorem of_reads (hx : Reads x) : Converses x := by
  intro m
  rw [hx m]
  exact .refl m.bus

theorem bind (hx : Converses x) (hf : ∀ a, Converses (f a)) : Converses (x >>= f) := by
  intro m
  have hFirst := hx m
  cases h : x m with
  | ok a m₁ =>
    rw [after_of_ok h] at hFirst
    rw [after_bind_of_ok h]
    exact hFirst.trans (hf a m₁)
  | error s m₁ =>
    rw [after_of_error h] at hFirst
    rwa [after_bind_of_error h]

theorem exchange (t : Transaction) : Converses (exchange t) := fun _ =>
  ⟨rfl, rfl, rfl, fun _ _ => rfl⟩

theorem log (e : LogEntry) : Converses (log e) := fun m => .refl m.bus

theorem input8 (port : UInt16) : Converses (input8 port) := by
  refine (of_reads .get).bind fun m => ?_
  split
  · exact (exchange _).bind fun _ => of_reads (.pure _)
  · exact (log _).bind fun _ => of_reads (.pure _)

theorem input16 (port : UInt16) : Converses (input16 port) := by
  refine (of_reads .get).bind fun m => ?_
  split
  · exact (exchange _).bind fun _ => of_reads (.pure _)
  · exact (input8 _).bind fun _ => (input8 _).bind fun _ => of_reads (.pure _)

theorem input (port : UInt16) (w : Width) : Converses (input port w) := by
  cases w with
  | byte => exact (input8 _).bind fun _ => of_reads (.pure _)
  | word => exact (input16 _).bind fun _ => of_reads (.pure _)
  | dword => exact (input16 _).bind fun _ => (input16 _).bind fun _ => of_reads (.pure _)

end Converses

/-- INS has its value when the store is refused. -/
theorem alters_of_ins {e : Exception} (h : stringElement .ins i m = .error (.fault e) m') :
    Bus.Alters (fun _ => False) m.bus m'.bus := by
  rw [stringElement, bind_of_ok (cpu_apply m)] at h
  rcases bind_eq_error.1 h with hCheck | ⟨_, m₁, hCheck, h⟩
  · rw [(Reads.check _).eq_of_error hCheck]
    exact .refl m.bus
  · rw [(Reads.check _).eq_of_ok hCheck] at h
    rcases bind_eq_error.1 h with hInput | ⟨v, m₂, hInput, h⟩
    · exact absurd hInput ((Sure.input (K := fun _ => True) trivial _ _).faultless m e m')
    · have hAnswer := Converses.input (m.cpu.regs.word .dx) i.size m
      rw [after_of_ok hInput] at hAnswer
      rcases bind_eq_error.1 h with hStore | ⟨_, m₃, -, hMove⟩
      · rwa [Atomic.writeMem _ _ _ m₂ _ m' hStore]
      · exact absurd hMove ((sure_advance (K := fun _ => True) trivial i .di).faultless m₃ e m')

/-! ### Every instruction -/

/-- What an instruction leaves behind where it faults. It has pushed `k` values of a width. -/
structure Spills (i : Instruction) (w : Width) (k : Nat) (m m' : Machine) : Prop where
  few : k ≤ i.pushedValues
  width : i.operation ≠ .int → w = i.size
  stack : i.operation.stacks = true → (m.cpu.lowered (w.bytes * k)).SameStack m'.cpu
  bus : Bus.Alters (i.spilled m.cpu m.bus (w.bytes * k)) m.bus m'.bus
  kept : i.operation.spills = false → m'.bus = m.bus

namespace Spills

variable {e : Exception}

/-- Nothing has been pushed. -/
theorem unstacked (hop : i.operation.stacks = false)
    (hBus : Bus.Alters (i.storedAside m.cpu m.bus) m.bus m'.bus)
    (hKept : i.operation.spills = false → m'.bus = m.bus) : Spills i i.size 0 m m' where
  few := Nat.zero_le _
  width _ := rfl
  stack h := absurd (hop.symm.trans h) Bool.false_ne_true
  bus := hBus.mono fun _ => .inr
  kept := hKept

/-- Nothing but pushes has been done. -/
theorem of_stacked (hk : k ≤ i.pushedValues) (hw : i.operation ≠ .int → w = i.size)
    (hop : i.operation.spills = true) (h : Stacked (w.bytes * k) m m') : Spills i w k m m' where
  few := hk
  width := hw
  stack _ := h.stack
  bus := h.bus.mono fun _ => .inl
  kept hKept := absurd (hKept.symm.trans hop) Bool.false_ne_true

theorem of_stacks {x : Exec Unit} (hx : Stacks i.size i.pushedValues x)
    (hop : i.operation.spills = true) (h : x m = .error (.fault e) m') :
    ∃ w k, Spills i w k m m' := by
  obtain ⟨k, hk, hStacked⟩ := hx m e m' h
  exact ⟨i.size, k, of_stacked hk (fun _ => rfl) hop hStacked⟩

/-- INT has pushed into the frame of its gate, after the mark on its handler. -/
theorem of_int (hop : i.operation = .int) (h : int i m = .error (.fault e) m') :
    ∃ w k, Spills i w k m m' := by
  have hSpills : i.operation.spills = true := hop ▸ rfl
  rcases exists_stacked_of_int h with
    rfl | ⟨vector, g, entry, d, hDst, hGate, hEntry, k, hk, hFrame⟩
  · exact ⟨i.size, 0, of_stacked (Nat.zero_le _) (fun _ => rfl) hSpills (.refl m')⟩
  · have hMark := alters_arrived m g.selector g.offset entry d
    have hSame := sameStack_arrived m g.selector g.offset entry d
    refine ⟨g.width, k, ?_, fun hNe => absurd hop hNe,
      fun _ => (hSame.lowered _).trans hFrame.stack,
      (hMark.mono ?_).trans (hFrame.bus.mono ?_),
      fun hKept => absurd (hKept.symm.trans hSpills) Bool.false_ne_true⟩
    · rwa [Instruction.pushedValues, hop]
    · rintro p ⟨hAccessed, rfl⟩
      refine .inr ?_
      rw [Instruction.storedAside, hop]
      exact ⟨vector, g, entry, d, hDst, hGate, hEntry, hAccessed, rfl⟩
    · rintro p ⟨j, hj, rfl⟩
      exact .inl ⟨j, hj, by rw [hMark.physical_eq, hSame.stackByte_eq]⟩

end Spills

/-- **A fault leaves memory as it was, except for what the instruction has spilled.** -/
theorem spills_of_fault {e : Exception} (hi : i.WellFormed)
    (h : once i m = .error (.fault e) m') : ∃ w k, Spills i w k m m' := by
  have hKept (hop : i.operation.spills = false) : m'.bus = m.bus :=
    (reverts_of_fault hi h).bus_eq fun hSpills => Bool.false_ne_true (hop.symm.trans hSpills)
  cases hSpills : i.operation.spills with
  | false =>
    refine ⟨i.size, 0, .unstacked ?_ ?_ hKept⟩
    · cases hop : i.operation <;> rw [hop] at hSpills <;> first | rfl | cases hSpills
    · rw [hKept hSpills]
      exact .refl m.bus
  | true =>
    rw [once] at h
    cases hop : i.operation with
      rw [hop] at h
    | pusha => exact Spills.of_stacks (stacks_pusha hop) hSpills h
    | callFar => exact Spills.of_stacks (stacks_callFar hop) hSpills h
    | enter => exact Spills.of_stacks (stacks_enter hop) hSpills h
    | int => exact Spills.of_int hop h
    | storeTable t =>
      refine ⟨i.size, 0, .unstacked (hop ▸ rfl) ?_ hKept⟩
      exact (alters_of_storeTable h).mono fun p hp => by rwa [Instruction.storedAside, hop]
    | string op =>
      cases op with
      | ins =>
        refine ⟨i.size, 0, .unstacked (hop ▸ rfl) ?_ hKept⟩
        exact (alters_of_ins h).mono fun p hp => hp.elim
      | _ =>
        rw [hop] at hSpills
        cases hSpills
    | _ =>
      rw [hop] at hSpills
      cases hSpills

end Exec

end X86
