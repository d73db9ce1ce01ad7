import X86.Proofs.Execute.Flags
import X86.Proofs.Execute.Lawful
import X86.Proofs.Machine.Snapshot
import X86.Proofs.Machine.Return
import X86.Proofs.Machine.RingPrivilege

/-!
# Single stepping in real mode

With a full vector table nothing stands between an exception and its handler in real mode, so an
instruction under the trap flag ends with one debug trap, or with its fault and none. The processor
must still be in real mode when the instruction is over, with the same table: only three
instructions see to it that it is not.

* `Cpu.vectoring`: where handlers are looked up.
* `Exec.vectoring_of_perform`: which instructions leave it alone.
* `Exec.Delivered`: an exception has been delivered, with a frame on the stack.
* `Exec.deliver_apply`: in real mode an exception is delivered at once.
* `Exec.single_step`: **an instruction under the trap flag is followed by exactly one debug trap,
  unless it faults.**
-/

namespace X86

/-! ### Where handlers are looked up -/

theorem Registers.readControl_writeControl (g : Registers) (n k : ControlReg) (v : UInt32) :
    (g.writeControl n v).readControl k = if n = k then v else g.readControl k := by
  change (g.control.set n.val v n.isLt)[k.val] = if n = k then v else g.control[k.val]
  rw [Vector.getElem_set]
  simp only [Fin.ext_iff]

theorem Cpu.cr0_setCr0 (c : Cpu) (v : UInt32) : (c.setCr0 v).cr0 = v := by
  rw [cr0, setCr0, Registers.readControl_writeControl, if_pos rfl]

/-- The mode, and the register of the interrupt table. -/
def Cpu.vectoring (c : Cpu) : Bool × TableRegister := (c.protectedMode, c.idtr)

theorem Cpu.vectoring_congr {c c' : Cpu} (h : c'.systemState = c.systemState) :
    c'.vectoring = c.vectoring := by
  have hControl : c'.regs.control = c.regs.control := congrArg SystemState.control h
  have hTable : c'.idtr = c.idtr := congrArg SystemState.idtr h
  rw [vectoring, vectoring, hTable, protectedMode, cr0, Registers.readControl, hControl]
  rfl

/-- No device that serves an interrupt edits the mode or the interrupt table. -/
def Machine.SparesVectoring (m : Machine) : Prop :=
  ∀ d ∈ m.devices, ∀ vector cpu bus, (d.serve vector cpu bus).cpu.vectoring = cpu.vectoring

/-- The processor is in real mode, and its table has room for all vectors. -/
structure Cpu.UsesVectors (c : Cpu) : Prop where
  real : c.protectedMode = false
  table : 0x3FF ≤ c.idtr.limit.toNat

theorem Cpu.UsesVectors.of_vectoring_eq {c c' : Cpu} (hc : c.UsesVectors)
    (h : c'.vectoring = c.vectoring) : c'.UsesVectors := by
  have hMode : c'.protectedMode = c.protectedMode := congrArg Prod.fst h
  have hTable : c'.idtr = c.idtr := congrArg Prod.snd h
  exact ⟨hMode.trans hc.real, hTable ▸ hc.table⟩

/-- Installed memory answers at the `n` bytes below the top of the stack. -/
def Machine.StackBacked (m : Machine) (n : Nat) : Prop :=
  ∀ k < n, m.bus.Backed (m.cpu.stackByte k)

theorem Machine.stackBacked_of_installed {m : Machine} {n : Nat} (hWindow : m.bus.window = none)
    (h : ∀ k < n, (m.bus.physical (m.cpu.stackByte k)).toNat < m.bus.ram.size) :
    m.StackBacked n := fun k hk => ⟨Bus.windowAt_eq_none hWindow _, h k hk⟩

section Changes

variable {K : ChangeKind → Prop} {m m' : Machine} (hSystem : ¬ K .system)

include hSystem

theorem Change.vectoring_eq (hm : m.SparesVectoring) (h : Change K m m') :
    m'.cpu.vectoring = m.cpu.vectoring := by
  cases h with
  | control _ _ hK | debug _ _ hK | table _ _ hK | selector _ _ hK => exact absurd hK hSystem
  | stack v => exact Cpu.vectoring_congr (m.cpu.systemState_writeRegister _ v)
  | register r v => exact Cpu.vectoring_congr (m.cpu.systemState_writeRegister r v)
  | serve n d vector _ hd => exact hm d hd vector m.cpu (m.bus.record (.service n vector))
  | _ => rfl

theorem Evolves.vectoring_eq (hm : m.SparesVectoring) (h : Evolves K m m') :
    m'.cpu.vectoring = m.cpu.vectoring := by
  induction h with
  | refl => rfl
  | tail hPrior hLast ih =>
    refine (hLast.vectoring_eq hSystem ?_).trans ih
    rw [Machine.SparesVectoring, Evolves.devices_eq hPrior]
    exact hm

end Changes

/-- LIDT, LMSW and moves to CR0. -/
def Instruction.SetsVectoring (i : Instruction) : Prop :=
  i.operation = .loadTable .interrupt ∨ i.operation = .lmsw ∨
    i.operation = .mov ∧ i.dst = .control .zero

namespace Exec

/-- However a run ends, handlers are looked up where they were before. -/
def KeepsVectoring {α : Type} (x : Exec α) : Prop :=
  ∀ m, (after x m).cpu.vectoring = m.cpu.vectoring

namespace KeepsVectoring

variable {α β : Type} {x y : Exec α} {f : α → Exec β}

theorem bind (hx : KeepsVectoring x) (hf : ∀ a, KeepsVectoring (f a)) :
    KeepsVectoring (x >>= f) := by
  intro m
  have hAfter := hx m
  cases h : x m with
  | ok a m₁ =>
    rw [after_of_ok h] at hAfter
    rw [after_bind_of_ok h, hf a m₁, hAfter]
  | error s m₁ =>
    rw [after_of_error h] at hAfter
    rw [after_bind_of_error h, hAfter]

theorem reads (hx : Reads x) : KeepsVectoring x := by
  intro m
  rw [hx m]

theorem afterReads (hx : Reads x) (hf : ∀ a, KeepsVectoring (f a)) : KeepsVectoring (x >>= f) :=
  (reads hx).bind hf

theorem modifyCpu {g : Cpu → Cpu} (hg : ∀ c, (g c).vectoring = c.vectoring) :
    KeepsVectoring (modifyCpu g) := fun m => hg m.cpu

theorem log (e : LogEntry) : KeepsVectoring (log e) := fun _ => rfl

end KeepsVectoring

variable {i : Instruction}

theorem keepsVectoring_clts : KeepsVectoring clts := by
  refine .afterReads .cpu fun c => .afterReads (.check _) fun _ => .modifyCpu fun c => ?_
  have hBit : bitAt (~~~Cpu.taskSwitchedBit) 0 = true := by decide
  refine Prod.ext ?_ rfl
  show (c.setCr0 (c.cr0 &&& ~~~Cpu.taskSwitchedBit)).protectedMode = c.protectedMode
  rw [Cpu.protectedMode, Cpu.cr0_setCr0, bitAt_and, hBit, Bool.and_true, Cpu.protectedMode]

theorem keepsVectoring_loadGlobal : KeepsVectoring (loadTable .global i) := by
  have hTable (r : TableRegister) (c : Cpu) : (c.setTable .global r).vectoring = c.vectoring := rfl
  refine .afterReads .cpu fun c => .afterReads (.check _) fun _ => ?_
  refine .afterReads (.location i _) fun l => .afterReads (.readMem _ _) fun limit => ?_
  refine .afterReads (.readMem _ _) fun base => ?_
  exact (KeepsVectoring.modifyCpu (hTable _)).bind fun _ => .log _

theorem keepsVectoring_loadSelector (s : SystemSegment) : KeepsVectoring (loadSelector s i) := by
  have hSelector (v : UInt16) (c : Cpu) : (c.setSystemSelector s v).vectoring = c.vectoring := by
    cases s <;> rfl
  refine .afterReads .cpu fun c => .afterReads (.check _) fun _ => ?_
  refine .afterReads (.check _) fun _ => .afterReads (.place i _) fun p => ?_
  refine .afterReads (.readPlace _ _) fun v => ?_
  exact (KeepsVectoring.modifyCpu (hSelector _)).bind fun _ => .log _

theorem keepsVectoring_movSpecial (hDst : i.dst ≠ .control .zero) :
    KeepsVectoring (movSpecial i) := by
  have hControl (n : ControlReg) (v : UInt32) (hn : n ≠ .zero) (c : Cpu) :
      Cpu.vectoring { c with regs := c.regs.writeControl n v } = c.vectoring := by
    refine Prod.ext ?_ rfl
    show bitAt ((c.regs.writeControl n v).readControl .zero) 0 = c.protectedMode
    rw [Registers.readControl_writeControl, if_neg hn, Cpu.protectedMode, Cpu.cr0]
  refine .afterReads .cpu fun c => .afterReads (.check _) fun _ => .afterReads .regs fun g => ?_
  split
  case h_1 n r hEq _ =>
    have hn : n ≠ .zero := fun h => hDst (hEq.trans (congrArg Operand.control h))
    rw [if_neg hn]
    exact .modifyCpu (hControl n _ hn)
  case h_2 | h_3 | h_4 => exact .modifyCpu fun c => rfl
  case h_5 => exact .reads (.fault _)

/-- The other privileged instructions leave the mode and the interrupt table alone. -/
theorem keepsVectoring_once (hi : i.isPrivileged = true) (hHlt : i.operation ≠ .hlt)
    (hSets : ¬ i.SetsVectoring) : KeepsVectoring (once i) := by
  rw [Instruction.isPrivileged] at hi
  rw [once]
  cases hop : i.operation with
    rw [hop] at hi
  | hlt => exact absurd hop hHlt
  | clts => exact keepsVectoring_clts
  | lmsw => exact absurd (.inr (.inl hop)) hSets
  | loadTable t =>
    cases t with
    | interrupt => exact absurd (.inl hop) hSets
    | global => exact keepsVectoring_loadGlobal
  | loadSelector s => exact keepsVectoring_loadSelector s
  | mov =>
    rw [mov_of_isSpecial hi]
    exact keepsVectoring_movSpecial fun hDst => hSets (.inr (.inr ⟨hop, hDst⟩))
  | _ => cases hi

/-- An instruction leaves the mode and the interrupt table alone, unless it is one of three. -/
theorem vectoring_of_perform {f : Features} {c : Code} {m : Machine} (hm : m.SparesVectoring)
    (hSets : ¬ (decode f c).SetsVectoring) :
    (after (perform (decode f c)) m).cpu.vectoring = m.cpu.vectoring := by
  cases hi : (decode f c).isPrivileged with
  | false =>
    have hOrdinary := changes_of_not_isPrivileged (decode_wellFormed f c) hi
    exact Evolves.vectoring_eq (K := Ordinary) (fun h => h.1 rfl) hm (hOrdinary m)
  | true =>
    have hString : (decode f c).operation.isString = false := by
      rw [Instruction.isPrivileged] at hi
      cases hop : (decode f c).operation with
      | string op =>
        rw [hop] at hi
        cases hi
      | _ => rfl
    rw [perform_of_not_string hString]
    by_cases hHlt : (decode f c).operation = .hlt
    · have hHalts : Changes (fun k => k = .halt ∨ k = .death) (once (decode f c)) := by
        rw [once, hHlt]
        exact (restartable_hlt (S := True) (.inl rfl) (.inr rfl)).changes
      exact (hHalts m).vectoring_eq (by simp) hm
    · exact keepsVectoring_once hi hHlt hSets m

/-! ### Deliveries -/

/-- An exception that was raised at `p` has been delivered: the machine is at the start of its
handler, and the frame is on the stack. -/
structure Delivered (e : Exception) (p : CodePlace) (m m' : Machine) : Prop where
  handler : m'.cpu = m.cpu.entered (m.bus.readVector m.cpu.idtr.base e.vector)
  frame : Cpu.Holds m'.bus .word m.cpu m.cpu.returnFrame
  writes : Bus.Overwrites (m.cpu.frameBytes m.bus 6) m.bus m'.bus
  rest : m' = { m.record (.raised e p) with cpu := m'.cpu, bus := m'.bus }

namespace Delivered

variable {e : Exception} {p : CodePlace} {m m' : Machine}

/-- Neither a debug trap nor an interrupt follows at the start of the handler. -/
theorem masked (h : Delivered e p m m') :
    m'.cpu.regs.flags.trap = false ∧ m'.cpu.regs.flags.interrupt = false := by
  rw [h.handler]
  exact ⟨rfl, rfl⟩

theorem vectoring_eq (h : Delivered e p m m') : m'.cpu.vectoring = m.cpu.vectoring := by
  rw [h.handler, Cpu.entered_eq]
  rfl

/-- The next frame goes below this one. -/
theorem stackBacked (h : Delivered e p m m') {n : Nat} (hm : m.StackBacked (6 + n)) :
    m'.StackBacked n := by
  intro k hk
  have hByte : m'.cpu.stackByte k = m.cpu.stackByte (6 + k) := by
    rw [h.handler, ← Cpu.stackByte_lowered]
    rfl
  rw [hByte]
  exact h.writes.backed (hm (6 + k) (by omega))

end Delivered

variable {m m₀ m₁ m' : Machine} {e : Exception}

/-- **In real mode an exception is delivered at once.** -/
theorem deliver_apply (hm : m.cpu.UsesVectors) (hBacked : m.StackBacked 6) (s : Snapshot) :
    ∃ m', deliver e s m = .ok true m' ∧ Delivered e { cs := s.cs, eip := s.eip } m m' := by
  let start := m.record (.raised e { cs := s.cs, eip := s.eip })
  have hHandler (software : Bool) : ∃ m', enterHandler e software s m = .ok none m' ∧
      Delivered e { cs := s.cs, eip := s.eip } m m' := by
    have hTable : 4 * e.vector.toNat + 3 ≤ start.cpu.idtr.limit.toNat := by
      have hVector := e.vector.toNat_lt
      have hLimit : 0x3FF ≤ start.cpu.idtr.limit.toNat := hm.table
      omega
    obtain ⟨b, hEnter, hOver, hHolds⟩ :=
      interrupt_apply (m := start) e.errorCode software hm.real hTable hBacked
    exact ⟨_, (bind_of_ok (log_apply _ m)).trans (attempt_eq_none.2 hEnter), rfl, hHolds, hOver,
      rfl⟩
  rw [deliver]
  split
  · obtain ⟨m', hEnter, h⟩ := hHandler true
    exact ⟨m', bind_of_ok hEnter, h⟩
  · obtain ⟨m', hEnter, h⟩ := hHandler false
    exact ⟨m', bind_of_ok hEnter, h⟩

theorem singleStep_apply (hm : m.cpu.UsesVectors) (hBacked : m.StackBacked 6) :
    ∃ m', singleStep m = .ok () m' ∧ Delivered .debug m.place m m' := by
  obtain ⟨m', hDeliver, h⟩ := deliver_apply (e := .debug) hm hBacked m.cpu.snapshot
  exact ⟨m', (bind_of_ok (cpu_apply m)).trans (bind_of_ok hDeliver), h⟩

/-- A trap is delivered first, and the debug trap from the start of its handler. -/
theorem raise_trap (he : e.isTrap = true) (hm : m.cpu.UsesVectors) (hBacked : m.StackBacked 12)
    (s : Snapshot) :
    ∃ m₁ m', raise e s true m = .ok () m' ∧ Delivered e { cs := s.cs, eip := s.eip } m m₁ ∧
      Delivered .debug m₁.place m₁ m' := by
  obtain ⟨m₁, hDeliver, hFirst⟩ :=
    deliver_apply (e := e) hm (fun k hk => hBacked k (Nat.lt_of_lt_of_le hk (by decide))) s
  obtain ⟨m', hStep, hSecond⟩ :=
    singleStep_apply (hm.of_vectoring_eq hFirst.vectoring_eq) (hFirst.stackBacked hBacked)
  refine ⟨m₁, m', ?_, hFirst, hSecond⟩
  simp only [raise, he, if_true]
  rw [bind_of_ok hDeliver]
  exact hStep

/-- A fault is delivered from the start of the instruction, and nothing else is. -/
theorem raise_fault_apply (he : e.isTrap = false) {s : Snapshot} {stepping : Bool}
    (hm : (m.withCpu (·.restore s)).cpu.UsesVectors)
    (hBacked : (m.withCpu (·.restore s)).StackBacked 6) :
    ∃ m', raise e s stepping m = .ok () m' ∧
      Delivered e { cs := s.cs, eip := s.eip } (m.withCpu (·.restore s)) m' := by
  obtain ⟨m', hDeliver, h⟩ := deliver_apply (e := e) hm hBacked s
  exact ⟨m', (raise_fault he s stepping m).trans (bind_of_ok hDeliver), h⟩

/-! ### Single steps -/

/-- An instruction that faults leaves the trap flag on. -/
theorem trap_of_fault {f : Features} {c : Code}
    (h : perform (decode f c) m = .error (.fault e) m') (hTrap : m.cpu.regs.flags.trap = true) :
    m'.cpu.regs.flags.trap = true := by
  cases hRep : (decode f c).rep with
  | none =>
    rw [perform, hRep] at h
    have hEvolves := (reverts_of_fault (decode_wellFormed f c) h).evolves
    rw [hEvolves.flags_eq_of_unserved (by simp [Retracted]) (by simp [Retracted])]
    exact hTrap
  | some mode =>
    -- only string instructions repeat, and they set nothing but status flags
    have hString := isString_of_rep (by simp [hRep] : (decode f c).rep ≠ none)
    have hLoads : (decode f c).operation.loadsFlags = false := by
      cases hop : (decode f c).operation with
      | popf | iret | int =>
        rw [hop] at hString
        cases hString
      | _ => rfl
    have hKeeps := keepsFlags_perform (S := (·.trap = true)) (decode_wellFormed f c) hLoads
      (fun _ => fun hg hf => hg.trap.trans hf)
      (fun op hop => by rw [hop] at hString; cases hString) m hTrap
    rwa [after_of_error h] at hKeeps

/-- Bit 8 of the flags in a frame is the trap flag. -/
theorem bitAt_flagsImage_trap (c : Cpu) : bitAt c.flagsImage 8 = c.regs.flags.trap := by
  rw [Cpu.bitAt_flagsImage_of_lt c (by decide)]
  exact congrArg Flags.trap (Flags.ofUInt32_toUInt32 (Cpu.imageFlags c.regs.flags))

section Steps

variable {i : Instruction} (hTrap : m.cpu.regs.flags.trap = true) (hFetch : fetch m = .ok i m₀)

include hTrap hFetch

/-- An instruction that completes is followed by a debug trap. -/
theorem step_over (hRun : perform i m₀ = .ok () m₁) (hUses : m₁.cpu.UsesVectors)
    (hBacked : m₁.StackBacked 6) :
    ∃ m', executeNext m = .ok () m' ∧ Delivered .debug m₁.place m₁ m' := by
  obtain ⟨m', hStep, hDelivered⟩ := singleStep_apply hUses hBacked
  refine ⟨m', executeNext_eq_ok.2 ⟨i, m₀, m₁, hFetch, .inl ⟨hRun, ?_⟩⟩, hDelivered⟩
  rw [hTrap]
  exact hStep

/-- What an instruction raises is delivered, as it is under the trap flag. -/
theorem executeNext_of_raise (hRun : perform i m₀ = .error (.fault e) m₁)
    (hRaise : raise e m.cpu.snapshot true m₁ = .ok () m') : executeNext m = .ok () m' := by
  refine executeNext_eq_ok.2 ⟨i, m₀, m₁, hFetch, .inr ⟨e, hRun, ?_⟩⟩
  rw [hTrap]
  exact hRaise

end Steps

/-- **An instruction under the trap flag is followed by exactly one debug trap, unless it faults.**
In real mode, with a full vector table and devices that leave both alone, every instruction but
LIDT, LMSW and a move to CR0 completes, raises its trap, or raises a fault. After the first two the
machine is at the handler of the debug trap, whose frame holds the place and the flags that the
instruction has left, or that the handler of its trap has been entered with. After a fault it is at
the handler of the fault, whose frame holds the start of the instruction and the flags with the trap
flag on. -/
theorem single_step {i : Instruction} (hReal : m.cpu.protectedMode = false)
    (hTable : 0x3FF ≤ m.cpu.idtr.limit.toNat) (hTrap : m.cpu.regs.flags.trap = true)
    (hDevices : m.SparesVectoring) (hFetch : fetch m = .ok i m₀) (hSets : ¬ i.SetsVectoring) :
    (∃ m₁, perform i m₀ = .ok () m₁ ∧
      (m₁.StackBacked 6 → ∃ m', executeNext m = .ok () m' ∧ Delivered .debug m₁.place m₁ m' ∧
        m'.cpu.regs.flags.trap = false ∧ m'.cpu.regs.flags.interrupt = false)) ∨
    (∃ e m₁, perform i m₀ = .error (.fault e) m₁ ∧ i.operation.trap? = some e ∧
      (m₁.StackBacked 12 → ∃ m₂ m', executeNext m = .ok () m' ∧ Delivered e m.place m₁ m₂ ∧
        Delivered .debug m₂.place m₂ m' ∧
        m'.cpu.regs.flags.trap = false ∧ m'.cpu.regs.flags.interrupt = false)) ∨
    ∃ e m₁, perform i m₀ = .error (.fault e) m₁ ∧ e.isTrap = false ∧
      ((m₁.withCpu (·.restore m.cpu.snapshot)).StackBacked 6 → ∃ m' image,
        executeNext m = .ok () m' ∧
        Delivered e m.place (m₁.withCpu (·.restore m.cpu.snapshot)) m' ∧
        (m₁.cpu.restore m.cpu.snapshot).returnFrame =
          [image, (m.cpu.regs.selector .cs).toUInt32, m.cpu.regs.eip] ∧
        bitAt image 8 = true) := by
  have hUses : (after (perform i) m₀).cpu.UsesVectors := by
    obtain ⟨-, rfl, rfl⟩ := fetch_eq_ok.1 hFetch
    exact Cpu.UsesVectors.of_vectoring_eq (c := m.cpu) ⟨hReal, hTable⟩
      (vectoring_of_perform (m := fetched m _) hDevices hSets)
  have hDecoded : i = decode m.cpu.features (m.cpu.code m.bus) := (fetch_eq_ok.1 hFetch).2.1
  have hTrap₀ : m₀.cpu.regs.flags.trap = true := by
    rw [(fetch_eq_ok.1 hFetch).2.2]
    exact hTrap
  have hReal₀ : m₀.cpu.protectedMode = false := by
    rw [(fetch_eq_ok.1 hFetch).2.2]
    exact hReal
  cases hRun : perform i m₀ with
  | ok _ m₁ =>
    rw [after_of_ok hRun] at hUses
    refine .inl ⟨m₁, rfl, fun hBacked => ?_⟩
    obtain ⟨m', hNext, hDelivered⟩ := step_over hTrap hFetch hRun hUses hBacked
    exact ⟨m', hNext, hDelivered, hDelivered.masked⟩
  | error s m₁ =>
    rw [after_of_error hRun] at hUses
    obtain ⟨e, rfl, hCase⟩ := trap_of_perform hReal₀ (hDecoded ▸ hRun)
    rcases hCase with he | ⟨he, hOwn, -⟩
    · refine .inr (.inr ⟨e, m₁, rfl, he, fun hBacked => ?_⟩)
      have hTaken : (m₁.withCpu (·.restore m.cpu.snapshot)).cpu.UsesVectors :=
        hUses.of_vectoring_eq rfl
      obtain ⟨m', hRaise, hDelivered⟩ := raise_fault_apply he hTaken hBacked
      refine ⟨m', _, executeNext_of_raise hTrap hFetch hRun hRaise, hDelivered, rfl, ?_⟩
      rw [bitAt_flagsImage_trap]
      exact trap_of_fault (hDecoded ▸ hRun) hTrap₀
    · refine .inr (.inl ⟨e, m₁, rfl, hDecoded ▸ hOwn, fun hBacked => ?_⟩)
      obtain ⟨m₂, m', hRaise, hFirst, hSecond⟩ := raise_trap he hUses hBacked m.cpu.snapshot
      exact ⟨m₂, m', executeNext_of_raise hTrap hFetch hRun hRaise, hFirst, hSecond,
        hSecond.masked⟩

/-- INT3 under the trap flag: the frame of the debug trap lies below that of the breakpoint. -/
theorem single_step_int3 :
    let m : Machine :=
      { cpu :=
          { model := .i80386
            regs := { gprs := { esp := 0x20 }, flags := { trap := true } } }
        bus :=
          { ram := ⟨⟨#[0xCC, 0, 0, 0, 0x10, 0, 0, 0, 0, 0, 0, 0, 0x18, 0, 0, 0,
              0, 0, 0, 0, 0, 0, 0, 0, 0, 0, 0, 0, 0, 0, 0, 0]⟩⟩ } }
    let m₀ := fetched m (m.cpu.decodeNext m.bus)
    m.cpu.protectedMode = false ∧ 0x3FF ≤ m.cpu.idtr.limit.toNat ∧
      m.cpu.regs.flags.trap = true ∧ m.SparesVectoring ∧
      fetch m = .ok (m.cpu.decodeNext m.bus) m₀ ∧ ¬ (m.cpu.decodeNext m.bus).SetsVectoring ∧
      ∃ m₂ m', executeNext m = .ok () m' ∧ Delivered .breakpoint m.place m₀ m₂ ∧
        Delivered .debug m₂.place m₂ m' ∧ m₂.cpu.regs.eip = 0x18 := by
  intro m m₀
  have hFetch : fetch m = .ok (m.cpu.decodeNext m.bus) m₀ :=
    fetch_eq_ok.2 ⟨by decide +kernel, rfl, rfl⟩
  have hOp : (m.cpu.decodeNext m.bus).operation = .int3 := by decide +kernel
  have hSets : ¬ (m.cpu.decodeNext m.bus).SetsVectoring := by
    rw [Instruction.SetsVectoring, hOp]
    simp
  have hDevices : m.SparesVectoring := fun d hd => absurd hd List.not_mem_nil
  have hRun : perform (m.cpu.decodeNext m.bus) m₀ = .error (.fault .breakpoint) m₀ := by
    have hOnce : perform (m.cpu.decodeNext m.bus) = once (m.cpu.decodeNext m.bus) :=
      perform_of_not_string (congrArg Operation.isString hOp)
    rw [hOnce, once, hOp]
    rfl
  have hBacked : m₀.StackBacked 12 := Machine.stackBacked_of_installed rfl (by decide +kernel)
  refine ⟨by decide, by decide, rfl, hDevices, hFetch, hSets, ?_⟩
  rcases single_step (by decide) (by decide) rfl hDevices hFetch hSets with
    ⟨m₁, hOk, -⟩ | ⟨e, m₁, hTrapped, -, hStep⟩ | ⟨e, m₁, hFault, he, -⟩
  · cases hRun.symm.trans hOk
  · cases hRun.symm.trans hTrapped
    obtain ⟨m₂, m', hNext, hFirst, hSecond, -⟩ := hStep hBacked
    refine ⟨m₂, m', hNext, hFirst, hSecond, ?_⟩
    rw [hFirst.handler]
    decide +kernel
  · cases hRun.symm.trans hFault
    cases he

/-- The frame of the debug trap need not hold the whole instruction pointer: a code segment that
protected mode has left behind can be larger than 64 KiB. -/
theorem stepFrame_narrow :
    let m : Machine :=
      { cpu :=
          { model := .i80386
            regs := { gprs := { esp := 0x20 }, eip := 0x20000, flags := { trap := true } }
            caches := (SegMap.replicate (Descriptor.realMode 0)).set .cs
              { base := 0xFFFE0000, limit := 0xFFFFFFFF, access := 0x9B, big := true } }
        bus :=
          { ram := ⟨⟨#[0x90, 0, 0, 0, 0x10, 0, 0, 0, 0, 0, 0, 0, 0, 0, 0, 0,
              0, 0, 0, 0, 0, 0, 0, 0, 0, 0, 0, 0, 0, 0, 0, 0]⟩⟩ } }
    let i := m.cpu.decodeNext m.bus
    let m₁ := after (perform i) (fetched m i)
    let m' := after executeNext m
    m.cpu.protectedMode = false ∧ 0x3FF ≤ m.cpu.idtr.limit.toNat ∧
      m.cpu.regs.flags.trap = true ∧ fetch m = .ok i (fetched m i) ∧ i.operation = .nop ∧
      perform i (fetched m i) = .ok () m₁ ∧ m₁.StackBacked 6 ∧ executeNext m = .ok () m' ∧
      m₁.cpu.regs.eip = 0x20001 ∧ m'.cpu.regs.gprs.esp = 0x1A ∧
      word16 (m'.bus.read8 0x1A) (m'.bus.read8 0x1B) = 0x0001 := by
  intro m i m₁ m'
  have hFetch : fetch m = .ok i (fetched m i) := fetch_eq_ok.2 ⟨by decide +kernel, rfl, rfl⟩
  have hBacked : m₁.StackBacked 6 :=
    Machine.stackBacked_of_installed (by decide +kernel) (by decide +kernel)
  exact ⟨by decide, by decide, rfl, hFetch, by decide +kernel, ok_after (by decide +kernel),
    hBacked, ok_after (by decide +kernel), by decide +kernel, by decide +kernel, by decide +kernel⟩

end Exec

end X86
