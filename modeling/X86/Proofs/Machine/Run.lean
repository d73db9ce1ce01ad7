import X86.Proofs.Encoding.WellFormed
import X86.Proofs.Machine.Delivery
import X86.Proofs.Memory.Image

/-!
# Runs of a machine

A machine runs by steps, and between them interrupt lines are raised and lowered in any order. This
file takes a step apart and says what each part of it can change.

* `Machine.Loaded`, `Machine.Runs`: where runs start and how they go on.
* `step_eq_ok`: the instruction, the timer, the interrupt lines.
* `executeNext_eq_ok`: an instruction runs to its end, or its exception is delivered.
* `serviceLines_eq_ok`: **a line is served only if interrupts are accepted, and serving it ends
  a wait.**
-/

namespace X86

/-! ### Starts and runs -/

namespace Machine

/-- The machine with devices and a log. -/
def equip (m : Machine) (devices : List Device) (window : Option Window)
    (log : Option (Array LogEntry)) : Machine :=
  { m with devices, bus := { m.bus with window }, log }

/-- A program has just been loaded into a machine that was made from settings. -/
def Loaded (m : Machine) : Prop :=
  ∃ (s : Settings) (devices : List Device) (window : Option Window)
    (log : Option (Array LogEntry)) (image : List UInt8),
    ((ofSettings s).equip devices window log).loadCom image = .ok m

/-- What can happen to a running machine: a step, or a change of an interrupt line. -/
inductive Next : Machine → Machine → Prop where
  | step {m m' : Machine} (h : Exec.step m = .ok () m') : Next m m'
  | raise (m : Machine) (n : Line) : Next m { m with irq := m.irq.raise n }
  | lower (m : Machine) (n : Line) : Next m { m with irq := m.irq.lower n }

/-- Any number of steps and changes of interrupt lines. -/
def Runs : Machine → Machine → Prop := Relation.ReflTransGen Next

/-- No device touches the processor. -/
def Calm (m : Machine) : Prop :=
  ∀ d ∈ m.devices, ∀ vector cpu bus, (d.serve vector cpu bus).cpu = cpu

theorem Calm.of_devices_eq {m m' : Machine} (h : m'.devices = m.devices) (hm : m.Calm) :
    m'.Calm := by
  rw [Calm, h]
  exact hm

/-- What a program is loaded into waits for nothing and is alive. -/
theorem Loaded.awake {m : Machine} (h : m.Loaded) :
    m.cpu.halted = false ∧ m.cpu.dead = false := by
  obtain ⟨s, devices, window, log, image, h⟩ := h
  have hReset : (Cpu.reset s.model).halted = false ∧ (Cpu.reset s.model).dead = false := by
    rw [Cpu.reset]
    split <;> exact ⟨rfl, rfl⟩
  rw [(loadCom_eq_ok.1 h).2]
  exact hReset

end Machine

/-! ### Changes on a calm machine -/

/-- What a change can do to the bits that say whether the processor waits, holds interrupts off, or
is dead. -/
theorem Change.activity {K : ChangeKind → Prop} {m m' : Machine} (h : Change K m m')
    (hm : m.Calm) :
    (m'.cpu.halted = m.cpu.halted ∨ K .halt) ∧ (m'.cpu.shadow = m.cpu.shadow ∨ K .hold) ∧
      (m'.cpu.dead = m.cpu.dead ∨ K .death ∧ m'.cpu.dead = true) := by
  cases h with
  | halt hK => exact ⟨.inr hK, .inl rfl, .inl rfl⟩
  | hold hK => exact ⟨.inl rfl, .inr hK, .inl rfl⟩
  | die hK => exact ⟨.inl rfl, .inl rfl, .inr ⟨hK, rfl⟩⟩
  | serve n d vector hK hd =>
    have hCpu := hm d hd vector m.cpu (m.bus.record (.service n vector))
    exact ⟨.inl (congrArg Cpu.halted hCpu), .inl (congrArg Cpu.shadow hCpu),
      .inl (congrArg Cpu.dead hCpu)⟩
  | table t => cases t <;> exact ⟨.inl rfl, .inl rfl, .inl rfl⟩
  | selector s => cases s <;> exact ⟨.inl rfl, .inl rfl, .inl rfl⟩
  | _ => exact ⟨.inl rfl, .inl rfl, .inl rfl⟩

/-- Where no device serves an interrupt it does not matter what devices do. -/
theorem Change.dead_of_unserved {K : ChangeKind → Prop} {m m' : Machine} (hService : ¬ K .service)
    (h : Change K m m') : m'.cpu.dead = m.cpu.dead ∨ K .death ∧ m'.cpu.dead = true := by
  cases h with
  | die hK => exact .inr ⟨hK, rfl⟩
  | serve n d vector hK => exact absurd hK hService
  | table t => cases t <;> exact .inl rfl
  | selector s => cases s <;> exact .inl rfl
  | _ => exact .inl rfl

namespace Evolves

variable {K : ChangeKind → Prop} {m m' : Machine}

theorem devices_eq (h : Evolves K m m') : m'.devices = m.devices := by
  refine eq_of_change Machine.devices ?_ h
  intro m m' hStep
  cases hStep <;> rfl

theorem irq_eq (h : Evolves K m m') : m'.irq = m.irq := by
  refine eq_of_change Machine.irq ?_ h
  intro m m' hStep
  cases hStep <;> rfl

theorem countdown_eq (h : Evolves K m m') : m'.countdown = m.countdown := by
  refine eq_of_change Machine.countdown ?_ h
  intro m m' hStep
  cases hStep <;> rfl

theorem period_eq (h : Evolves K m m') : m'.period = m.period := by
  refine eq_of_change Machine.period ?_ h
  intro m m' hStep
  cases hStep <;> rfl

/-- What every allowed change keeps on a calm machine, a run of changes keeps there. -/
theorem of_change_of_calm {R : Machine → Machine → Prop} (hRefl : ∀ m, R m m)
    (hTrans : ∀ {m m₁ m'}, R m m₁ → R m₁ m' → R m m')
    (hStep : ∀ {m m'}, m.Calm → Change K m m' → R m m') (h : Evolves K m m') (hm : m.Calm) :
    R m m' := by
  induction h with
  | refl => exact hRefl _
  | tail hPrior hLast ih => exact hTrans ih (hStep (hm.of_devices_eq (devices_eq hPrior)) hLast)

theorem eq_of_change_of_calm {α : Type} (part : Machine → α)
    (hStep : ∀ {m m'}, m.Calm → Change K m m' → part m' = part m) (h : Evolves K m m')
    (hm : m.Calm) : part m' = part m :=
  of_change_of_calm (R := fun m m' => part m' = part m) (fun _ => rfl) (fun h₁ h₂ => h₂.trans h₁)
    hStep h hm

/-- Only HLT begins a wait. -/
theorem halted_eq (hK : ¬ K .halt) (h : Evolves K m m') (hm : m.Calm) :
    m'.cpu.halted = m.cpu.halted := by
  refine eq_of_change_of_calm (fun m => m.cpu.halted) ?_ h hm
  intro m m' hm hStep
  exact (hStep.activity hm).1.resolve_right hK

/-- Only a few instructions hold interrupts off. -/
theorem shadow_eq (hK : ¬ K .hold) (h : Evolves K m m') (hm : m.Calm) :
    m'.cpu.shadow = m.cpu.shadow := by
  refine eq_of_change_of_calm (fun m => m.cpu.shadow) ?_ h hm
  intro m m' hm hStep
  exact (hStep.activity hm).2.1.resolve_right hK

theorem dead_eq (hK : ¬ K .death) (h : Evolves K m m') (hm : m.Calm) :
    m'.cpu.dead = m.cpu.dead := by
  refine eq_of_change_of_calm (fun m => m.cpu.dead) ?_ h hm
  intro m m' hm hStep
  exact (hStep.activity hm).2.2.resolve_right fun hDeath => hK hDeath.1

theorem dead_eq_of_unserved (hDeath : ¬ K .death) (hService : ¬ K .service) (h : Evolves K m m') :
    m'.cpu.dead = m.cpu.dead := by
  refine eq_of_change (fun m => m.cpu.dead) ?_ h
  intro m m' hStep
  exact (hStep.dead_of_unserved hService).resolve_right fun hDies => hDeath hDies.1

theorem flags_eq_of_unserved (hFlags : ¬ K .flags) (hService : ¬ K .service)
    (h : Evolves K m m') : m'.cpu.regs.flags = m.cpu.regs.flags := by
  refine eq_of_change (fun m => m.cpu.regs.flags) ?_ h
  intro m m' hStep
  cases hStep with
  | flags f hK => exact absurd hK hFlags
  | serve n d vector hK => exact absurd hK hService
  | stack v => exact Registers.flags_write _ _ _
  | register r v => exact Registers.flags_write _ _ _
  | table t => cases t <;> rfl
  | selector s => cases s <;> rfl
  | _ => rfl

/-- Devices aside, only HLT begins a wait. -/
theorem halted_eq_of_unserved (hHalt : ¬ K .halt) (hService : ¬ K .service) (h : Evolves K m m') :
    m'.cpu.halted = m.cpu.halted := by
  refine eq_of_change (fun m => m.cpu.halted) ?_ h
  intro m m' hStep
  cases hStep with
  | halt hK => exact absurd hK hHalt
  | serve n d vector hK => exact absurd hK hService
  | table t => cases t <;> rfl
  | selector s => cases s <;> rfl
  | _ => rfl

/-- Devices aside, only a few instructions hold interrupts off. -/
theorem shadow_eq_of_unserved (hHold : ¬ K .hold) (hService : ¬ K .service) (h : Evolves K m m') :
    m'.cpu.shadow = m.cpu.shadow := by
  refine eq_of_change (fun m => m.cpu.shadow) ?_ h
  intro m m' hStep
  cases hStep with
  | hold hK => exact absurd hK hHold
  | serve n d vector hK => exact absurd hK hService
  | table t => cases t <;> rfl
  | selector s => cases s <;> rfl
  | _ => rfl

/-- A dead processor stays dead. -/
theorem dead_of_dead (h : Evolves K m m') (hm : m.Calm) (hDead : m.cpu.dead = true) :
    m'.cpu.dead = true := by
  refine of_change_of_calm (R := fun m m' => m.cpu.dead = true → m'.cpu.dead = true)
    (fun _ => id) (fun h₁ h₂ hd => h₂ (h₁ hd)) ?_ h hm hDead
  intro m m' hm hStep hd
  rcases (hStep.activity hm).2.2 with hEq | ⟨-, hDies⟩
  · exact hEq.trans hd
  · exact hDies

theorem dead_of_dead_of_unserved (hService : ¬ K .service) (h : Evolves K m m')
    (hDead : m.cpu.dead = true) : m'.cpu.dead = true := by
  refine of_change (R := fun m m' => m.cpu.dead = true → m'.cpu.dead = true)
    (fun _ => id) (fun h₁ h₂ hd => h₂ (h₁ hd)) ?_ h hDead
  intro m m' hStep hd
  rcases hStep.dead_of_unserved hService with hEq | ⟨-, hDies⟩
  · exact hEq.trans hd
  · exact hDies

end Evolves

/-- The instruction carries out an operation once, on operands of width `w`. -/
structure Instruction.Does (i : Instruction) (op : Operation) (w : Width) : Prop where
  operation : i.operation = op
  once : i.rep = none
  size : i.size = w

namespace Exec

variable {m m₁ m₂ m' : Machine}

/-! ### The parts of a step -/

/-- What a step does before the timer moves on: an instruction, unless the processor waits. -/
def Executes (m m' : Machine) : Prop :=
  m.cpu.halted = true ∧ m' = m ∨ m.cpu.halted = false ∧ executeNext m = .ok () m'

theorem Executes.eq (h : Executes m m₁) (h' : Executes m m₂) : m₁ = m₂ := by
  rcases h with ⟨hWaits, rfl⟩ | ⟨hAwake, hNext⟩
  · rcases h' with ⟨-, rfl⟩ | ⟨hAwake, -⟩
    · rfl
    · cases hWaits.symm.trans hAwake
  · rcases h' with ⟨hWaits, -⟩ | ⟨-, hNext'⟩
    · cases hWaits.symm.trans hAwake
    · cases hNext.symm.trans hNext'
      rfl

theorem step_eq_ok :
    step m = .ok () m' ↔
      ∃ m₁ m₂, Executes m m₁ ∧ tick m₁ = .ok () m₂ ∧ serviceLines m₂ = .ok () m' := by
  rw [step, bind_of_ok (cpu_apply m)]
  cases hHalted : m.cpu.halted with
  | true =>
    simp only [if_true]
    rw [bind_eq_ok]
    constructor
    · rintro ⟨_, m₂, hTick, hService⟩
      exact ⟨m, m₂, .inl ⟨hHalted, rfl⟩, hTick, hService⟩
    · rintro ⟨m₁, m₂, ⟨-, rfl⟩ | ⟨hAwake, -⟩, hTick, hService⟩
      · exact ⟨(), m₂, hTick, hService⟩
      · exact absurd (hHalted.symm.trans hAwake) (by decide)
  | false =>
    simp only [Bool.false_eq_true, if_false]
    rw [bind_eq_ok]
    constructor
    · rintro ⟨_, m₁, hNext, h⟩
      obtain ⟨_, m₂, hTick, hService⟩ := bind_eq_ok.1 h
      exact ⟨m₁, m₂, .inr ⟨hHalted, hNext⟩, hTick, hService⟩
    · rintro ⟨m₁, m₂, ⟨hWaits, -⟩ | ⟨-, hNext⟩, hTick, hService⟩
      · exact absurd (hHalted.symm.trans hWaits) (by decide)
      · exact ⟨(), m₁, hNext, bind_eq_ok.2 ⟨(), m₂, hTick, hService⟩⟩

/-- The machine after the timer has moved on. -/
def ticked (m : Machine) : Machine :=
  if m.countdown = 1 then { m with countdown := m.period, irq := m.irq.raise ⟨0, by decide⟩ }
  else { m with countdown := m.countdown - 1 }

theorem cpu_ticked (m : Machine) : (ticked m).cpu = m.cpu := by
  rw [ticked]
  split <;> rfl

theorem bus_ticked (m : Machine) : (ticked m).bus = m.bus := by
  rw [ticked]
  split <;> rfl

theorem bases_ticked (m : Machine) :
    (ticked m).masterBase = m.masterBase ∧ (ticked m).slaveBase = m.slaveBase := by
  rw [ticked]
  split <;> exact ⟨rfl, rfl⟩

/-- The timer moves on unless it has no period. -/
theorem tick_apply (m : Machine) :
    tick m = if m.countdown = 0 then .error (.violation .countdown) m else .ok () (ticked m) := by
  rw [tick, bind_of_ok (get_apply m), ticked]
  split
  · rfl
  · split <;> rfl

theorem tick_of_ne (h : m.countdown ≠ 0) : tick m = .ok () (ticked m) := by
  rw [tick_apply, if_neg h]

/-- After the instruction a step looks at the lines. -/
theorem serviceLines_of_step (hExecutes : Executes m m₁) (hStep : step m = .ok () m') :
    serviceLines (ticked m₁) = .ok () m' := by
  obtain ⟨m₁', m₂, hExecutes', hTick, hService⟩ := step_eq_ok.1 hStep
  cases hExecutes.eq hExecutes'
  rw [tick_apply] at hTick
  split at hTick
  · cases hTick
  · cases hTick
    exact hService

theorem ticked_of_one_lt (h : 1 < m.countdown) :
    ticked m = { m with countdown := m.countdown - 1 } :=
  if_neg (by omega)

/-- The timer touches neither the processor nor the devices. -/
theorem eq_of_tick (h : tick m = .ok () m') : m'.cpu = m.cpu ∧ m'.devices = m.devices := by
  rw [tick_apply, ticked] at h
  split at h
  · cases h
  · split at h
    · cases h
      exact ⟨rfl, rfl⟩
    · cases h
      exact ⟨rfl, rfl⟩

theorem byteAt_code {c : Cpu} (b : Bus) (h : c.code32 = false) :
    (c.code b).byteAt 0 = b.read8 (c.segmentBase .cs + c.regs.eip) := by
  rw [Cpu.code, Code.ofBus, h]
  change b.read8 (_ + (_ + UInt32.ofNat 0)) = _
  rw [show c.regs.eip + UInt32.ofNat 0 = c.regs.eip from UInt32.add_zero _]

theorem overflows_of_le {c : Cpu} (b : Bus) (h : c.regs.eip ≤ 0xFFFF) :
    (c.code b).overflows = false := by
  have hStart : (c.regs.eip == 0xFFFFFFFF) = false := by
    rw [beq_eq_false_iff_ne]
    rintro hEq
    rw [hEq] at h
    exact absurd h (by decide)
  change (_ && (c.regs.eip == 0xFFFFFFFF)) = false
  rw [hStart, Bool.and_false]

/-- The machine after the fetch of an instruction. -/
def fetched (m : Machine) (i : Instruction) : Machine :=
  ((m.record (.executing m.place i)).traceInstruction i).withCpu (·.begin i)

theorem fetch_eq_ok {i : Instruction} :
    fetch m = .ok i m' ↔
      (m.cpu.code m.bus).overflows = false ∧ i = m.cpu.decodeNext m.bus ∧ m' = fetched m i := by
  rw [fetch, bind_of_ok (get_apply m)]
  cases hCode : (m.cpu.code m.bus).overflows with
  | true =>
    constructor
    · intro h
      cases h
    · rintro ⟨hOk, -⟩
      cases hOk
  | false =>
    constructor
    · intro h
      cases h
      exact ⟨rfl, rfl, rfl⟩
    · rintro ⟨-, rfl, rfl⟩
      rfl

/-- The fetch stops only at the end of the address space. -/
theorem fetch_stops {s : Stop} (h : fetch m = .error s m') :
    s = .violation .codeOffset ∧ (m.cpu.code m.bus).overflows = true ∧ m' = m := by
  rw [fetch, bind_of_ok (get_apply m)] at h
  cases hCode : (m.cpu.code m.bus).overflows with
  | true =>
    simp only [hCode, if_true] at h
    cases h
    exact ⟨rfl, rfl, rfl⟩
  | false =>
    simp only [hCode] at h
    cases h

/-- Where the fetch stops, nothing has been fetched. -/
theorem fetch_eq_error {s : Stop} (h : fetch m = .error s m') : m' = m := (fetch_stops h).2.2

theorem devices_fetched (m : Machine) (i : Instruction) : (fetched m i).devices = m.devices := rfl

/-- Without a repeat prefix an instruction is performed once. -/
theorem perform_eq_once {i : Instruction} (hRep : i.rep ≠ none → i.operation.isString = true)
    (hString : i.operation.isString = false) : perform i = once i := by
  rw [perform]
  split
  · rfl
  · rename_i mode hMode
    cases hString.symm.trans (hRep (by simp [hMode]))

theorem perform_of_not_string {f : Features} {c : Code}
    (h : (decode f c).operation.isString = false) : perform (decode f c) = once (decode f c) :=
  perform_eq_once isString_of_rep h

theorem perform_of_does {i : Instruction} {op : Operation} {w : Width} (h : i.Does op w) :
    perform i = once i := by
  rw [perform, h.once]

/-- The machine fetches an instruction and performs it to its end. -/
def Performs (i : Instruction) (m m' : Machine) : Prop := perform i (fetched m i) = .ok () m'

/-- What is fetched changes nothing that is not listed for it. -/
theorem changes_fetched {i : Instruction} (hFetch : fetch m = .ok i m') :
    Changes (· ∈ i.changes) (perform i) := by
  obtain ⟨-, rfl, -⟩ := fetch_eq_ok.1 hFetch
  exact changes_decoded _ _

/-- An instruction runs to its end, or it stops early and its exception is delivered. -/
theorem executeNext_eq_ok :
    executeNext m = .ok () m' ↔
      ∃ i m₁ m₂, fetch m = .ok i m₁ ∧
        ((perform i m₁ = .ok () m₂ ∧
            (if m.cpu.regs.flags.trap then singleStep else pure ()) m₂ = .ok () m') ∨
          ∃ e, perform i m₁ = .error (.fault e) m₂ ∧
            raise e m.cpu.snapshot m.cpu.regs.flags.trap m₂ = .ok () m') := by
  rw [executeNext, bind_of_ok (cpu_apply m)]
  constructor
  · intro h
    obtain ⟨i, m₁, hFetch, h⟩ := bind_eq_ok.1 h
    obtain ⟨r, m₂, hAttempt, h⟩ := bind_eq_ok.1 h
    cases r with
    | none => exact ⟨i, m₁, m₂, hFetch, .inl ⟨attempt_eq_none.1 hAttempt, h⟩⟩
    | some e => exact ⟨i, m₁, m₂, hFetch, .inr ⟨e, attempt_eq_some.1 hAttempt, h⟩⟩
  · rintro ⟨i, m₁, m₂, hFetch, ⟨hPerform, h⟩ | ⟨e, hPerform, h⟩⟩
    · exact (bind_of_ok hFetch).trans ((bind_of_ok (attempt_eq_none.2 hPerform)).trans h)
    · exact (bind_of_ok hFetch).trans ((bind_of_ok (attempt_eq_some.2 hPerform)).trans h)

/-- An instruction and what follows it, as changes after the fetch. -/
theorem evolves_executeNext (h : executeNext m = .ok () m') :
    ∃ i m₁ m₂, fetch m = .ok i m₁ ∧ Evolves (· ∈ i.changes) m₁ m₂ ∧ Evolves Delivers m₂ m' := by
  obtain ⟨i, m₁, m₂, hFetch, hEnd⟩ := executeNext_eq_ok.1 h
  have hPerform := changes_fetched hFetch
  rcases hEnd with ⟨hOk, hStep⟩ | ⟨e, hError, hRaise⟩
  · refine ⟨i, m₁, m₂, hFetch, hPerform.of_ok hOk, ?_⟩
    split at hStep
    · exact sure_singleStep.changes.of_ok hStep
    · cases hStep
      exact .refl _
  · exact ⟨i, m₁, m₂, hFetch, hPerform.of_error hError, (sure_raise _ _ _).changes.of_ok hRaise⟩

/-- The machine when the processor turns to a pending line. -/
def woken (m : Machine) : Machine :=
  { m with irq := m.irq.takeLowest.2 }.withCpu fun c => { c with halted := false }

/-- What serving a line comes to: the handler of its vector is entered, or what that raises is
delivered. -/
def serveVector (vector : UInt8) : Exec Unit := do
  let s := (← cpu).snapshot
  match ← attempt (interrupt vector none false) with
  | none => pure ()
  | some e =>
    restore s
    let _ ← deliver e s

theorem sure_serveVector (vector : UInt8) : Sure Delivers (serveVector vector) := by
  refine Sure.cpu.bind fun c => (Sure.attempt (changes_interrupt _ _ _)).bind fun r => ?_
  cases r with
  | none => exact .pure ()
  | some e =>
    exact (sure_restore _).bind fun _ => (sure_deliver e _).bind fun _ => .pure ()

theorem serviceLines_apply (m : Machine) :
    serviceLines m =
      if m.irq.any && m.cpu.acceptsInterrupt then
        match m.irq.takeLowest.1 with
        | none => .ok () { m with irq := m.irq.takeLowest.2 }
        | some line => serveVector (line.vector m.masterBase m.slaveBase) (woken m)
      else .ok () m := by
  rw [serviceLines, bind_of_ok (get_apply m)]
  split
  · have hTake : takeLine m = .ok m.irq.takeLowest.1 { m with irq := m.irq.takeLowest.2 } := rfl
    rw [bind_of_ok hTake]
    cases m.irq.takeLowest.1 <;> rfl
  · rfl

/-- **A line is served only if interrupts are accepted, and serving it ends a wait.** -/
theorem serviceLines_eq_ok (h : serviceLines m = .ok () m') :
    m' = m ∨ m.cpu.acceptsInterrupt = true ∧
      (m' = { m with irq := m.irq.takeLowest.2 } ∨ Evolves Delivers (woken m) m') := by
  rw [serviceLines_apply] at h
  split at h
  · rename_i hAccepts
    refine .inr ⟨(Bool.and_eq_true_iff.1 hAccepts).2, ?_⟩
    split at h
    · cases h
      exact .inl rfl
    · exact .inr ((sure_serveVector _).changes.of_ok h)
  · cases h
    exact .inl rfl

theorem serviceLines_of_refused {m : Machine} (h : m.cpu.acceptsInterrupt = false) :
    serviceLines m = .ok () m := by
  rw [serviceLines, bind_of_ok (get_apply m), if_neg]
  · rfl
  · rw [h]
    simp

/-- A step with nothing after its instruction. -/
theorem step_of_perform {m m₁ m₂ : Machine} {i : Instruction} (hAwake : m.cpu.halted = false)
    (hTrap : m.cpu.regs.flags.trap = false) (hFetch : fetch m = .ok i m₁)
    (hPerform : perform i m₁ = .ok () m₂) (hTimer : 1 < m₂.countdown)
    (hLines : m₂.irq.any = false) :
    step m = .ok () { m₂ with countdown := m₂.countdown - 1 } := by
  have hNext : executeNext m = .ok () m₂ :=
    executeNext_eq_ok.2 ⟨i, m₁, m₂, hFetch, .inl ⟨hPerform, by rw [hTrap]; rfl⟩⟩
  have hTick : tick m₂ = .ok () { m₂ with countdown := m₂.countdown - 1 } :=
    (tick_of_ne (by omega)).trans (congrArg _ (ticked_of_one_lt hTimer))
  refine step_eq_ok.2 ⟨m₂, _, .inr ⟨hAwake, hNext⟩, hTick, ?_⟩
  rw [serviceLines, bind_of_ok (get_apply _), if_neg]
  · rfl
  · rw [hLines]
    simp

/-! ### Devices -/

theorem Executes.devices_eq (h : Executes m m') : m'.devices = m.devices := by
  rcases h with ⟨-, rfl⟩ | ⟨-, hNext⟩
  · rfl
  · obtain ⟨i, m₁, m₂, hFetch, hPerform, hEnd⟩ := evolves_executeNext hNext
    obtain ⟨-, -, rfl⟩ := fetch_eq_ok.1 hFetch
    rw [hEnd.devices_eq, hPerform.devices_eq, devices_fetched]

end Exec

theorem Machine.Next.devices_eq {m m' : Machine} (h : Next m m') : m'.devices = m.devices := by
  cases h with
  | raise n | lower n => rfl
  | step h =>
    obtain ⟨m₁, m₂, hExecutes, hTick, hService⟩ := Exec.step_eq_ok.1 h
    have hBefore : m₂.devices = m.devices :=
      (Exec.eq_of_tick hTick).2.trans hExecutes.devices_eq
    rcases Exec.serviceLines_eq_ok hService with rfl | ⟨-, rfl | hServed⟩
    · exact hBefore
    · exact hBefore
    · exact hServed.devices_eq.trans hBefore

theorem Machine.Runs.calm {m m' : Machine} (h : Runs m m') (hm : m.Calm) : m'.Calm := by
  induction h with
  | refl => exact hm
  | tail _ hLast ih => exact ih.of_devices_eq hLast.devices_eq

end X86
