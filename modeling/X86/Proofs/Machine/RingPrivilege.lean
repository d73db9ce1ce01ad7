import X86.Proofs.Machine.FlagPrivilege
import X86.Proofs.Machine.Halting

/-!
# What only privileged code reaches

The registers that set up the system are left to ring 0, and the ports to the rings up to the I/O
privilege level. An instruction that goes beyond that is refused before it has done anything, and no
other instruction, nor the delivery of an exception, makes a change of that kind.

* `Evolves.systemState_eq`, `Evolves.portTraffic_eq`: which kinds of change reach them.
* `once_of_isPrivileged`, `once_of_usesPorts`: the refusals.
* `system_confined`: **an instruction outside ring 0 leaves the system state alone, and one above
  the I/O privilege level uses no port.**
-/

namespace X86

/-! ### The system state -/

/-- The registers that set up the system, and whether the processor waits. -/
structure SystemState where
  control : Vector UInt32 5
  debug : Vector UInt32 8
  gdtr : TableRegister
  idtr : TableRegister
  ldtr : UInt16
  tr : UInt16
  halted : Bool

/-- The registers that set up the system, and whether the processor waits. -/
def Cpu.systemState (c : Cpu) : SystemState :=
  { control := c.regs.control, debug := c.regs.debug, gdtr := c.gdtr, idtr := c.idtr,
    ldtr := c.ldtr, tr := c.tr, halted := c.halted }

theorem Cpu.systemState_writeRegister (c : Cpu) (r : Register) (v : UInt32) :
    (c.writeRegister r v).systemState = c.systemState := by
  cases r <;> rfl

/-- A change outside the system state. -/
def Ordinary (k : ChangeKind) : Prop := k ≠ .system ∧ k ≠ .halt

theorem Evolves.systemState_eq {m m' : Machine} (h : Evolves Ordinary m m') (hm : m.Calm) :
    m'.cpu.systemState = m.cpu.systemState := by
  refine eq_of_change_of_calm (fun m => m.cpu.systemState) ?_ h hm
  intro m m' hm hStep
  cases hStep with
  | control _ _ hK | debug _ _ hK | table _ _ hK | selector _ _ hK => exact absurd rfl hK.1
  | halt hK => exact absurd rfl hK.2
  | stack v => exact m.cpu.systemState_writeRegister _ v
  | register r v => exact m.cpu.systemState_writeRegister r v
  | serve n d vector _ hd =>
    exact congrArg Cpu.systemState (hm d hd vector m.cpu (m.bus.record (.service n vector)))
  | _ => rfl

/-! ### Port traffic -/

/-- The exchange is an access to a port. -/
def Transaction.isPort : Transaction → Bool
  | .input8 .. | .input16 .. | .output8 .. | .output16 .. => true
  | .store .. | .service .. => false

namespace Bus

/-- The accesses to ports so far. -/
def portTraffic (b : Bus) : List Transaction := b.traffic.toList.filter (·.isPort)

theorem portTraffic_record (b : Bus) {t : Transaction} (h : t.isPort = false) :
    (b.record t).portTraffic = b.portTraffic := by
  simp [portTraffic, record, h]

theorem portTraffic_write8 (b : Bus) (addr : UInt32) (v : UInt8) :
    (b.write8 addr v).portTraffic = b.portTraffic := by
  rw [write8]
  split
  · exact b.portTraffic_record rfl
  · rfl

end Bus

/-- No device uses a port while it serves an interrupt; it is handed the processor and the bus, but
not the other devices. -/
def Machine.ServesOffPorts (m : Machine) : Prop :=
  ∀ d ∈ m.devices, ∀ vector cpu bus, (d.serve vector cpu bus).bus.portTraffic = bus.portTraffic

theorem Evolves.portTraffic_eq {m m' : Machine} (h : Evolves (· ≠ .port) m m')
    (hm : m.ServesOffPorts) : m'.bus.portTraffic = m.bus.portTraffic := by
  induction h with
  | refl => rfl
  | @tail m₁ m' hPrior hStep ih =>
    refine Eq.trans ?_ ih
    have hDevices : m₁.devices = m.devices := devices_eq hPrior
    cases hStep with
    | store addr v => exact m₁.bus.portTraffic_write8 addr v
    | exchange t hK => exact absurd rfl hK
    | serve n d vector _ hd =>
      rw [hDevices] at hd
      exact (hm d hd vector m₁.cpu _).trans (m₁.bus.portTraffic_record rfl)
    | _ => rfl

/-! ### Refusals -/

namespace Cpu

variable {c : Cpu}

theorem requirePrivilege_of_ne (h : c.cpl ≠ .zero) :
    c.requirePrivilege = .error (.generalProtection 0) := if_neg h

theorem cpl_ne_zero_of_iopl (h : c.regs.flags.iopl < c.cpl) : c.cpl ≠ .zero := fun hZero =>
  absurd (hZero ▸ h) (Nat.not_lt_zero _)

theorem requireIo_of_lt (h : c.regs.flags.iopl < c.cpl) :
    c.requireIo = .error (.generalProtection 0) := by
  have hp := protectedMode_of_cpl (cpl_ne_zero_of_iopl h)
  exact if_pos (Bool.and_eq_true_iff.2 ⟨hp, decide_eq_true h⟩)

end Cpu

/-- The operand is a control or debug register. -/
def Operand.isSpecial : Operand → Bool
  | .control _ | .debug _ => true
  | _ => false

namespace Instruction

/-- The instruction changes the system state. -/
def isPrivileged (i : Instruction) : Bool :=
  match i.operation with
  | .hlt | .clts | .lmsw | .loadTable _ | .loadSelector _ => true
  | .mov => i.dst.isSpecial || i.src.isSpecial
  | _ => false

/-- The instruction goes to a port. -/
def usesPorts (i : Instruction) : Bool :=
  match i.operation with
  | .input | .output | .string .ins | .string .outs => true
  | _ => false

end Instruction

namespace Exec

variable {m : Machine} {i : Instruction}

theorem movSpecial_of_ne (hc : m.cpu.cpl ≠ .zero) (i : Instruction) :
    movSpecial i m = .error (.fault (.generalProtection 0)) m := by
  rw [movSpecial, bind_of_ok (cpu_apply m), Cpu.requirePrivilege_of_ne hc]
  rfl

theorem mov_of_isSpecial (hi : (i.dst.isSpecial || i.src.isSpecial) = true) :
    mov i = movSpecial i := by
  rw [mov]
  rcases Bool.or_eq_true_iff.1 hi with hi | hi
  · cases hDst : i.dst with
    | control n | debug n => rfl
    | _ =>
      rw [hDst] at hi
      cases hi
  · cases hSrc : i.src with
    | control n | debug n => cases i.dst <;> rfl
    | _ =>
      rw [hSrc] at hi
      cases hi

/-- **Outside ring 0 a privileged instruction is refused.** -/
theorem once_of_isPrivileged (hi : i.isPrivileged = true) (hc : m.cpu.cpl ≠ .zero) :
    once i m = .error (.fault (.generalProtection 0)) m := by
  have hPrivilege := Cpu.requirePrivilege_of_ne hc
  have hProtection : m.cpu.requireProtection = .ok () := if_pos (Cpu.protectedMode_of_cpl hc)
  rw [Instruction.isPrivileged] at hi
  rw [once]
  cases hop : i.operation with
  | hlt =>
    change hlt m = _
    rw [hlt, bind_of_ok (get_apply m), hPrivilege]
    rfl
  | clts =>
    change clts m = _
    rw [clts, bind_of_ok (cpu_apply m), hPrivilege]
    rfl
  | lmsw =>
    change lmsw i m = _
    rw [lmsw, bind_of_ok (cpu_apply m), hPrivilege]
    rfl
  | loadTable t =>
    change loadTable t i m = _
    rw [loadTable, bind_of_ok (cpu_apply m), hPrivilege]
    rfl
  | loadSelector s =>
    change loadSelector s i m = _
    rw [loadSelector, bind_of_ok (cpu_apply m), hProtection, hPrivilege]
    rfl
  | mov =>
    rw [hop] at hi
    change mov i m = _
    rw [mov_of_isSpecial hi, movSpecial_of_ne hc]
  | _ =>
    rw [hop] at hi
    cases hi

/-- **Above the I/O privilege level an instruction that uses ports is refused.** -/
theorem once_of_usesPorts (hi : i.usesPorts = true)
    (hIo : m.cpu.regs.flags.iopl < m.cpu.cpl) :
    once i m = .error (.fault (.generalProtection 0)) m := by
  have hRefused := Cpu.requireIo_of_lt hIo
  rw [Instruction.usesPorts] at hi
  rw [once]
  cases hop : i.operation with
  | input =>
    change inputPort i m = _
    rw [inputPort, bind_of_ok (cpu_apply m), hRefused]
    rfl
  | output =>
    change outputPort i m = _
    rw [outputPort, bind_of_ok (cpu_apply m), hRefused]
    rfl
  | string op =>
    change stringElement op i m = _
    rw [stringElement, bind_of_ok (cpu_apply m)]
    cases op with
    | ins | outs =>
      simp only [hRefused]
      rfl
    | _ =>
      rw [hop] at hi
      cases hi
  | _ =>
    rw [hop] at hi
    cases hi

/-- Where the element is refused, a repeat is refused too, unless its counter is zero. -/
theorem perform_of_refused {s : Stop} (h : once i m = .error s m) :
    perform i m = .error s m ∨
      i.rep ≠ none ∧ m.cpu.regs.read (repeatCounter i) = 0 ∧ perform i m = .ok () m := by
  rw [perform]
  cases hRep : i.rep with
  | none => exact .inl h
  | some mode =>
    change repeated mode (once i) i m = _ ∨ _ ∧ _ ∧ repeated mode (once i) i m = _
    rw [repeated, bind_of_ok (regs_apply m)]
    cases hCount : (m.cpu.regs.read (repeatCounter i)).toNat with
    | zero => exact .inr ⟨Option.some_ne_none mode, UInt32.toNat_inj.1 hCount, rfl⟩
    | succ n => exact .inl (bind_of_error h)

theorem evolves_of_refused {K : ChangeKind → Prop} {s : Stop} (h : once i m = .error s m) :
    Evolves K m (after (perform i) m) := by
  rcases perform_of_refused h with h | ⟨-, -, h⟩
  · rw [after_of_error h]
    exact .refl m
  · rw [after_of_ok h]
    exact .refl m

/-! ### What else instructions change -/

theorem changes_popOperand {K : ChangeKind → Prop} (hG : K .general)
    (hDst : i.dst.isSpecial = true) : Changes K (popOperand i) := by
  refine (Changes.pop _).bind fun v => ?_
  cases h : i.dst with
  | control n | debug n =>
    exact (Reads.place i _).changes.bind fun _ =>
      (Restartable.writePlace (S := True) hG _ _ _).changes
  | _ =>
    rw [h] at hDst
    cases hDst

theorem Changes.perform {K : ChangeKind → Prop} (hG : K .general) (hOnce : Changes K (once i)) :
    Changes K (perform i) := by
  rw [Exec.perform]
  cases i.rep with
  | none => exact hOnce
  | some mode => exact .repeated hG mode hOnce i

theorem system_not_mem_kinds {o : Operand} (ho : o.isSpecial = false) :
    ChangeKind.system ∉ o.kinds := by
  intro h
  rcases Operand.mem_kinds h with hLoads | ⟨-, ⟨n, rfl⟩ | ⟨n, rfl⟩⟩
  · simp at hLoads
  · cases ho
  · cases ho

theorem system_not_mem_changes (hPrivileged : i.isPrivileged = false)
    (hPop : i.operation = .pop → i.dst.isSpecial = false) : ChangeKind.system ∉ i.changes := by
  rw [Instruction.isPrivileged] at hPrivileged
  rw [Instruction.changes]
  cases hop : i.operation with
    rw [hop] at hPrivileged
  | mov => simp [system_not_mem_kinds (Bool.or_eq_false_iff.1 hPrivileged).1]
  | pop => simp [system_not_mem_kinds (hPop hop)]
  | loadFar s => cases s <;> simp [ChangeKind.ofSegment]
  | flag op => cases op <;> simp
  | clts | lmsw | loadTable _ | loadSelector _ => cases hPrivileged
  | _ => simp

/-- An instruction that is not privileged changes nothing of the system state. -/
theorem changes_of_not_isPrivileged (hi : i.WellFormed) (hPrivileged : i.isPrivileged = false) :
    Changes Ordinary (perform i) := by
  have hG : Ordinary .general := ⟨nofun, nofun⟩
  refine .perform hG ?_
  by_cases hPop : i.operation = .pop ∧ i.dst.isSpecial = true
  · rw [once, hPop.1]
    exact changes_popOperand hG hPop.2
  · have hSystem : ChangeKind.system ∉ i.changes :=
      system_not_mem_changes hPrivileged fun hop =>
        eq_false_of_ne_true fun hDst => hPop ⟨hop, hDst⟩
    have hHalt : ChangeKind.halt ∉ i.changes := by
      refine not_mem_changes (.inl rfl) fun hop => ?_
      rw [Instruction.isPrivileged, hop] at hPrivileged
      cases hPrivileged
    exact changes_once hi fun k hk => ⟨fun h => hSystem (h ▸ hk), fun h => hHalt (h ▸ hk)⟩

theorem port_not_mem_kinds (o : Operand) : ChangeKind.port ∉ o.kinds := by
  intro h
  simpa using Operand.mem_kinds h

theorem port_not_mem_changes (hPorts : i.usesPorts = false)
    (hString : i.operation.isString = false) : ChangeKind.port ∉ i.changes := by
  rw [Instruction.usesPorts] at hPorts
  rw [Instruction.changes]
  cases hop : i.operation with
    rw [hop] at hPorts hString
  | mov | pop => simp [port_not_mem_kinds i.dst]
  | loadFar s => cases s <;> simp [ChangeKind.ofSegment]
  | flag op => cases op <;> simp
  | input | output => cases hPorts
  | string op => cases hString
  | _ => simp

/-- An instruction that uses no ports makes no exchange with one. -/
theorem changes_of_not_usesPorts (hi : i.WellFormed) (hPorts : i.usesPorts = false) :
    Changes (· ≠ .port) (perform i) := by
  have hGeneral : ChangeKind.general ≠ .port := by decide
  have hFlags : ChangeKind.flags ≠ .port := by decide
  refine .perform hGeneral ?_
  by_cases hString : i.operation.isString = true
  · rw [Instruction.usesPorts] at hPorts
    rw [once]
    cases hop : i.operation with
      rw [hop] at hPorts hString
    | string op =>
      refine (restartable_stringElement (S := True) hGeneral hFlags op (fun hPort => ?_)
        (fun _ => trivial) i).changes
      rcases hPort with rfl | rfl <;> cases hPorts
    | _ => cases hString
  · have hPort := port_not_mem_changes hPorts (eq_false_of_ne_true hString)
    have hKinds (k : ChangeKind) (hk : k ∈ i.changes) : k ≠ .port := fun h => hPort (h ▸ hk)
    exact changes_once hi hKinds

/-! ### One instruction -/

/-- The footprint of an instruction and of what is delivered after it, in whatever way it ends. -/
theorem evolves_after_executeNext {K : ChangeKind → Prop} (hK : ∀ k, Delivers k → K k)
    (hPerform : ∀ i m₁, fetch m = .ok i m₁ → Evolves K m₁ (after (perform i) m₁)) :
    after executeNext m = m ∨ ∃ i m₁, fetch m = .ok i m₁ ∧ Evolves K m₁ (after executeNext m) := by
  rw [executeNext, after_bind_of_ok (cpu_apply m)]
  cases hFetch : fetch m with
  | error s m' =>
    rw [after_bind_of_error hFetch]
    exact .inl (fetch_eq_error hFetch)
  | ok i m₁ =>
    refine .inr ⟨i, m₁, rfl, ?_⟩
    rw [after_bind_of_ok hFetch]
    have hAttempt : Evolves K m₁ (after (attempt (perform i)) m₁) := by
      rw [after_attempt]
      exact hPerform i m₁ hFetch
    refine evolves_bind hAttempt fun r m₂ _ => ?_
    cases r with
    | none =>
      have hStep : Changes Delivers (if m.cpu.regs.flags.trap then singleStep else pure ()) := by
        split
        · exact sure_singleStep.changes
        · exact .pure ()
      exact hStep.mono hK m₂
    | some e => exact (sure_raise e _ _).changes.mono hK m₂

/-- **Outside ring 0 an instruction leaves the system state alone, and above the I/O privilege level
it uses no port.** This includes the delivery of what the instruction raises, and software interrupts
that devices serve. An instruction that would use a port is refused, or repeats zero times. -/
theorem system_confined (hm : m.Calm) (hc : m.cpu.cpl ≠ .zero) :
    (after executeNext m).cpu.systemState = m.cpu.systemState ∧
      (m.cpu.regs.flags.iopl < m.cpu.cpl →
        (m.ServesOffPorts → (after executeNext m).bus.portTraffic = m.bus.portTraffic) ∧
        ∀ i m₁, fetch m = .ok i m₁ → i.usesPorts = true →
          perform i m₁ = .error (.fault (.generalProtection 0)) m₁ ∨
            i.rep ≠ none ∧ m₁.cpu.regs.read (repeatCounter i) = 0 ∧ perform i m₁ = .ok () m₁) := by
  have hWellFormed {i : Instruction} {m₁ : Machine} (hFetch : fetch m = .ok i m₁) :
      i.WellFormed := by
    obtain ⟨-, rfl, -⟩ := fetch_eq_ok.1 hFetch
    exact decode_wellFormed _ _
  have hFetched {i : Instruction} {m₁ : Machine} (hFetch : fetch m = .ok i m₁) :
      m₁ = fetched m i := (fetch_eq_ok.1 hFetch).2.2
  refine ⟨?_, fun hIo => ⟨fun hServes => ?_, fun i m₁ hFetch hi => ?_⟩⟩
  · have hPerform (i : Instruction) (m₁ : Machine) (hFetch : fetch m = .ok i m₁) :
        Evolves Ordinary m₁ (after (perform i) m₁) := by
      cases hi : i.isPrivileged with
      | true =>
        refine evolves_of_refused (once_of_isPrivileged hi ?_)
        rw [hFetched hFetch]
        exact hc
      | false => exact changes_of_not_isPrivileged (hWellFormed hFetch) hi m₁
    have hDelivers (k : ChangeKind) (hk : Delivers k) : Ordinary k := by
      rcases hk with rfl | rfl | rfl | rfl <;> exact ⟨nofun, nofun⟩
    rcases evolves_after_executeNext hDelivers hPerform with h | ⟨i, m₁, hFetch, h⟩
    · rw [h]
    · rw [hFetched hFetch] at h
      exact h.systemState_eq hm
  · have hPerform (i : Instruction) (m₁ : Machine) (hFetch : fetch m = .ok i m₁) :
        Evolves (· ≠ .port) m₁ (after (perform i) m₁) := by
      cases hi : i.usesPorts with
      | true =>
        refine evolves_of_refused (once_of_usesPorts hi ?_)
        rw [hFetched hFetch]
        exact hIo
      | false => exact changes_of_not_usesPorts (hWellFormed hFetch) hi m₁
    have hDelivers (k : ChangeKind) (hk : Delivers k) : k ≠ .port := by
      rcases hk with rfl | rfl | rfl | rfl <;> exact nofun
    rcases evolves_after_executeNext hDelivers hPerform with h | ⟨i, m₁, hFetch, h⟩
    · rw [h]
    · rw [hFetched hFetch] at h
      exact h.portTraffic_eq hServes
  · refine perform_of_refused (once_of_usesPorts hi ?_)
    rw [hFetched hFetch]
    exact hIo

/-- Code of some ring without I/O privilege in front of OUT 80h,AL, and a device that takes every
byte. -/
def portMachine (ring : UInt16) : Machine :=
  { cpu :=
      { model := .i80386
        regs :=
          { ({} : Registers).writeControl .zero Cpu.protectionBit with
            selectors := (SegMap.replicate 0).set .cs ring } }
    bus := { ram := ⟨⟨#[0xE6, 0x80]⟩⟩ }
    devices := [{ output8 := fun _ _ _ => true }] }

theorem system_confined_out :
    (portMachine 3).Calm ∧ (portMachine 3).cpu.cpl ≠ .zero ∧ (portMachine 3).ServesOffPorts ∧
      (portMachine 3).cpu.regs.flags.iopl < (portMachine 3).cpu.cpl ∧
      (after executeNext (portMachine 3)).cpu.systemState = (portMachine 3).cpu.systemState ∧
      (after executeNext (portMachine 3)).bus.portTraffic = [] := by
  have hCalm : (portMachine 3).Calm := by
    intro d hd
    cases List.mem_singleton.1 hd
    exact fun _ _ _ => rfl
  have hServes : (portMachine 3).ServesOffPorts := by
    intro d hd
    cases List.mem_singleton.1 hd
    exact fun _ _ _ => rfl
  have hRing : (portMachine 3).cpu.cpl ≠ .zero := by decide
  have hIo : (portMachine 3).cpu.regs.flags.iopl < (portMachine 3).cpu.cpl := by decide
  obtain ⟨hSystem, hPorts⟩ := system_confined hCalm hRing
  exact ⟨hCalm, hRing, hServes, hIo, hSystem, (hPorts hIo).1 hServes⟩

example : (after executeNext (portMachine 0)).bus.portTraffic = [.output8 0 0x80 0] := by
  decide +kernel

end Exec

end X86
