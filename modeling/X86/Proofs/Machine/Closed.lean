import X86.Proofs.Machine.HighMemory

/-!
# The 16-bit models are closed

A machine with 16-bit registers has no way out of the state that real mode describes. So it reaches
the first MiB only, unless the A20 gate is open; it always finds its handlers; and it dies of nothing
but an HLT while interrupts are masked.

* `Machine.EntersHandlers`, `Machine.Confined`, `Machine.HaltsMasked`: what is said of a state.
* `Exec.haltsMasked_of_step`: **a step that kills the processor is such an HLT.**
* `Machine.narrow_closed`: **all of it holds of every state of a run.**
-/

namespace X86

namespace Machine

/-- Every interrupt enters a handler, and every exception its own one. -/
structure EntersHandlers (m : Machine) : Prop where
  interrupt : ∀ vector errorCode software,
    ∃ m', Exec.interrupt vector errorCode software m = .ok () m'
  exception : ∀ e s, ∃ m', Exec.deliver e s m = .ok true m'

/-- The next instruction is an HLT, and interrupts are masked. -/
structure HaltsMasked (m : Machine) : Prop where
  awake : m.cpu.halted = false
  instruction : (m.cpu.decodeNext m.bus).operation = .hlt
  masked : m.cpu.regs.flags.interrupt = false

end Machine

/-! ### Deliveries -/

theorem Cpu.Narrow.vector_le {c : Cpu} (hc : c.Narrow) (vector : UInt8) :
    vector.toNat * 4 + 3 ≤ c.idtr.limit.toNat := by
  have hVector := vector.toNat_lt
  rw [hc.idtr]
  change _ ≤ 0x3FF
  omega

namespace Exec

variable {m m' : Machine} {start : Snapshot}

theorem entersHandlers_of_narrow (hc : m.cpu.Narrow) : m.EntersHandlers where
  interrupt vector errorCode software :=
    let ⟨m', h, _⟩ := interrupt_of_le hc.real (hc.vector_le vector) errorCode software
    ⟨m', h⟩
  exception e s :=
    let ⟨m', h, _⟩ := deliver_of_le hc.real (hc.vector_le e.vector) s
    ⟨m', h⟩

theorem not_enters_death : ¬ Enters .death := by simp [Enters]

theorem dead_of_deliver (hm : m.Calm) (hc : m.cpu.Narrow) {e : Exception} {entered : Bool}
    (h : deliver e start m = .ok entered m') : m'.cpu.dead = m.cpu.dead := by
  obtain ⟨m₁, hDeliver, hEnters, -⟩ := deliver_of_le hc.real (hc.vector_le e.vector) start
  cases h.symm.trans hDeliver
  exact hEnters.dead_eq not_enters_death hm

theorem dead_of_singleStep (hm : m.Calm) (hc : m.cpu.Narrow) (h : singleStep m = .ok () m') :
    m'.cpu.dead = m.cpu.dead := by
  obtain ⟨m₁, hSingle, hEnters, -⟩ := singleStep_of_le hc.real (hc.vector_le 1)
  cases h.symm.trans hSingle
  exact hEnters.dead_eq not_enters_death hm

/-- What an instruction raises does not kill a narrow processor. -/
theorem dead_of_raise (hm : m.Calm) (hc : m.cpu.Sound false) (hs : start.Fits false)
    {e : Exception} {stepping : Bool} (h : raise e start stepping m = .ok () m') :
    m'.cpu.dead = m.cpu.dead := by
  have hEnd {m : Machine} (hm : m.Calm) (hc : m.cpu.Sound false)
      (h : (do
        let entered ← deliver e start
        if entered ∧ e.isTrap ∧ stepping then singleStep) m = .ok () m') :
      m'.cpu.dead = m.cpu.dead := by
    obtain ⟨entered, m₁, hDeliver, hRest⟩ := bind_eq_ok.1 h
    have hKept := dead_of_deliver hm (hc.narrow rfl) hDeliver
    have hDrifts := (((composed_deliver (P := fun _ => True) e hs).ends hm hc trivial).apply
      hDeliver).1
    split at hRest
    · exact (dead_of_singleStep (hDrifts.calm hm) ((hDrifts.sound hc).narrow rfl) hRest).trans hKept
    · cases hRest
      exact hKept
  rw [raise] at h
  split at h
  · exact hEnd hm hc h
  · obtain ⟨_, m₁, hRestore, hRest⟩ := bind_eq_ok.1 h
    cases hRestore
    exact hEnd (m := m.withCpu (·.restore start)) hm
      ((Cpu.Moves.single (.restore m.cpu start hs)).sound hc) hRest

theorem dead_of_serviceLines (hm : m.Calm) (hc : m.cpu.Narrow)
    (h : serviceLines m = .ok () m') : m'.cpu.dead = m.cpu.dead := by
  rw [serviceLines_apply] at h
  split at h
  · split at h
    · cases h
      rfl
    · rename_i line _
      obtain ⟨m₁, hEnter, hEnters, -⟩ := interrupt_of_le (m := woken m) hc.real
        (hc.vector_le (line.vector m.masterBase m.slaveBase)) none false
      have hServe : serveVector (line.vector m.masterBase m.slaveBase) (woken m) = .ok () m₁ :=
        (bind_of_ok (cpu_apply _)).trans (bind_of_ok (attempt_eq_none.2 hEnter))
      cases h.symm.trans hServe
      have hKept : m'.cpu.dead = (woken m).cpu.dead := hEnters.dead_eq not_enters_death hm
      exact hKept
  · cases h
    rfl

/-! ### Death -/

/-- An instruction kills the processor only if it is an HLT while interrupts are masked. -/
theorem dead_of_perform (hm : m.Calm) {i : Instruction} {m₁ : Machine}
    (hFetch : fetch m = .ok i m₁) :
    (after (perform i) m₁).cpu.dead = m.cpu.dead ∨
      i.operation = .hlt ∧ m.cpu.regs.flags.interrupt = false := by
  have hChanges := changes_fetched hFetch m₁
  have hHlt := perform_of_fetch (i := i) hFetch
  obtain ⟨-, -, rfl⟩ := fetch_eq_ok.1 hFetch
  by_cases hop : i.operation = .hlt
  · rcases hlt_cases (fetched m i) with ⟨e, h⟩ | ⟨hMasked, -⟩ | ⟨-, h⟩
    · rw [after_of_error ((hHlt hop).trans h)]
      exact .inl rfl
    · exact .inr ⟨hop, hMasked⟩
    · rw [after_of_ok ((hHlt hop).trans h)]
      exact .inl rfl
  · have hKept : (after (perform i) (fetched m i)).cpu.dead = (fetched m i).cpu.dead :=
      hChanges.dead_eq (not_mem_changes (.inr rfl) hop) hm
    exact .inl hKept

theorem dead_of_executeNext (hm : m.Calm) (hc : m.cpu.Sound false)
    (h : executeNext m = .ok () m') :
    m'.cpu.dead = m.cpu.dead ∨
      (m.cpu.decodeNext m.bus).operation = .hlt ∧ m.cpu.regs.flags.interrupt = false := by
  obtain ⟨i, m₁, m₂, hFetch, hEnd⟩ := executeNext_eq_ok.1 h
  have hPerform := dead_of_perform hm hFetch
  have hDrifts : m.Drifts false m₁ := ((Ends.fetch hc).apply hFetch).1
  obtain ⟨-, rfl, -⟩ := fetch_eq_ok.1 hFetch
  have hRun := (composed_perform (P := fun _ => True) (allowed_decodeNext hc m.bus)).ends
    (hDrifts.calm hm) (hDrifts.sound hc) trivial
  -- what follows the instruction spares the processor
  have hSpares : m'.cpu.dead = (after (perform (m.cpu.decodeNext m.bus)) m₁).cpu.dead := by
    rcases hEnd with ⟨hOk, hStep⟩ | ⟨e, hError, hRaise⟩
    · have hDrifts' := hDrifts.trans (hRun.apply hOk).1
      rw [after_of_ok hOk]
      split at hStep
      · exact dead_of_singleStep (hDrifts'.calm hm) ((hDrifts'.sound hc).narrow rfl) hStep
      · cases hStep
        rfl
    · have hDrifts' := hDrifts.trans (hRun.apply_error hError)
      rw [after_of_error hError]
      exact dead_of_raise (hDrifts'.calm hm) (hDrifts'.sound hc) hc.fits_snapshot hRaise
  rw [hSpares]
  exact hPerform

/-- **A step that kills a narrow processor is an HLT while interrupts are masked.** -/
theorem haltsMasked_of_step (hm : m.Ready false) (h : step m = .ok () m')
    (hDead : m'.cpu.dead = true) : m.cpu.dead = true ∨ m.HaltsMasked := by
  obtain ⟨m₁, m₂, hExecutes, hTick, hService⟩ := step_eq_ok.1 h
  have hReady := hm.drifts (hm.drifts_of_executes hExecutes)
  obtain ⟨hCpu, hDevices⟩ := eq_of_tick hTick
  have hKept : m'.cpu.dead = m₁.cpu.dead := by
    rw [← hCpu]
    exact dead_of_serviceLines (hReady.calm.of_devices_eq hDevices)
      (hCpu ▸ hReady.cpu.narrow rfl) hService
  rw [hKept] at hDead
  rcases hExecutes with ⟨-, rfl⟩ | ⟨hAwake, hNext⟩
  · exact .inl hDead
  · rcases dead_of_executeNext hm.calm hm.cpu hNext with hSame | ⟨hHlt, hMasked⟩
    · exact .inl (hSame.symm.trans hDead)
    · exact .inr ⟨hAwake, hHlt, hMasked⟩

end Exec

/-! ### The first MiB -/

/-- Behind the closed gate, what the processor reaches lies in the first MiB. -/
structure Cpu.Confined (c : Cpu) : Prop where
  /-- Data, by offsets of 16 bits. -/
  data : ∀ (b : Bus) (l : Location) (i : Nat), b.a20 = false → l.wide = false →
    (b.physical (c.byteAddress l i)).toNat < 0x100000
  /-- The bytes of the next instruction. -/
  code : ∀ (b : Bus) (n : Nat), b.a20 = false →
    (b.physical (c.segmentBase .cs + Code.offsetOf c.regs.eip c.code32 n)).toNat < 0x100000
  /-- The vector table. -/
  vector : ∀ (b : Bus) (vector : UInt8), b.a20 = false → ∀ i < 4,
    (b.physical (Bus.vectorAddress c.idtr.base vector + UInt32.ofNat i)).toNat < 0x100000

theorem Cpu.Narrow.confined {c : Cpu} (hc : c.Narrow) : c.Confined where
  data _ _ i hGate hl := Bus.physical_lt hGate (hc.toNat_byteAddress_lt hl i)
  code _ n hGate := Bus.physical_lt hGate (hc.toNat_codeAddress_lt n)
  vector _ vector hGate i hi := by
    rw [hc.idtr]
    exact Bus.physical_lt hGate (Bus.toNat_vectorByte_lt vector hi)

namespace Machine

variable {m₀ m m' : Machine}

/-- While the gate is closed, a step stays in the first MiB. -/
structure Confined (m : Machine) : Prop where
  /-- The accesses of an instruction and of an interrupt have offsets of 16 bits. -/
  instruction : Exec.Composes false Exec.executeNext
  interrupt : ∀ vector, Exec.Composes false (Exec.serveVector vector)
  /-- Such accesses reach no further, wherever the step has got to. -/
  reach : ∀ c, Cpu.Moves false m.cpu c → c.Confined
  /-- What lies behind the first MiB makes no difference, and stays as it is. -/
  blind : ∀ high, m.Shuttered high →
    ∃ m', Exec.step m = .ok () m' ∧ Exec.step (m.withHigh high) = .ok () (m'.withHigh high)

theorem Ready.confined (h : m.Ready false) : m.Confined where
  instruction := Exec.composed_executeNext
  interrupt := Exec.composed_serveVector
  reach _ hMoves := ((hMoves.sound h.cpu).narrow rfl).confined
  blind _ hm := h.exists_blind_step hm

/-! ### Runs -/

/-- What is true of every state of a narrow machine. -/
structure Closed (m : Machine) : Prop where
  narrow : m.cpu.Narrow
  confined : m.Confined
  /-- No delivery fails, wherever the step has got to. -/
  handlers : ∀ m' : Machine, Cpu.Moves false m.cpu m'.cpu → m'.EntersHandlers
  dies : ∀ m', Exec.step m = .ok () m' → m'.cpu.dead = true → m.cpu.dead = true ∨ m.HaltsMasked

theorem Ready.closed (h : m.Ready false) : m.Closed where
  narrow := h.cpu.narrow rfl
  confined := h.confined
  handlers _ hMoves := Exec.entersHandlers_of_narrow ((hMoves.sound h.cpu).narrow rfl)
  dies _ hStep hDead := Exec.haltsMasked_of_step h hStep hDead

theorem Loaded.narrow_ready (hLoaded : m₀.Loaded) (hCalm : m₀.Calm)
    (hModel : m₀.cpu.model = .i8086 ∨ m₀.cpu.model = .i80186) : m₀.Ready false := by
  have hReady := hLoaded.ready hCalm
  have hWide : m₀.cpu.features.wideRegisters = false := by
    rw [Cpu.features]
    rcases hModel with h | h <;> rw [h] <;> rfl
  rwa [hWide] at hReady

/-- What a dead narrow machine died of. -/
theorem Runs.haltsMasked (hRun : m₀.Runs m) (h₀ : m₀.Ready false) (hAlive : m₀.cpu.dead = false)
    (hDead : m.cpu.dead = true) :
    ∃ m₁ m₂, m₀.Runs m₁ ∧ m₁.HaltsMasked ∧ Exec.step m₁ = .ok () m₂ ∧ m₂.Runs m := by
  induction hRun with
  | refl => exact absurd (hAlive.symm.trans hDead) Bool.false_ne_true
  | @tail m₁ m₂ hPrior hLast ih =>
    have hEarlier (hDead : m₁.cpu.dead = true) : ∃ m₃ m₄, m₀.Runs m₃ ∧ m₃.HaltsMasked ∧
        Exec.step m₃ = .ok () m₄ ∧ m₄.Runs m₂ := by
      obtain ⟨m₃, m₄, hBefore, hHalt, hStep, hAfter⟩ := ih hDead
      exact ⟨m₃, m₄, hBefore, hHalt, hStep, hAfter.tail hLast⟩
    cases hLast with
    | raise n | lower n => exact hEarlier hDead
    | step hStep =>
      rcases Exec.haltsMasked_of_step (Runs.ready hPrior h₀) hStep hDead with hBefore | hHalt
      · exact hEarlier hBefore
      · exact ⟨m₁, m₂, hPrior, hHalt, hStep, .refl⟩

/-- **The 16-bit models are closed**: every state of a run keeps the invariants of real mode, stays
in the first MiB while the gate is closed, finds all its handlers, and dies of nothing but an HLT
while interrupts are masked. -/
theorem narrow_closed (hLoaded : m₀.Loaded) (hCalm : m₀.Calm)
    (hModel : m₀.cpu.model = .i8086 ∨ m₀.cpu.model = .i80186) (hRun : m₀.Runs m) :
    m.Closed ∧ (m.cpu.dead = true →
      ∃ m₁ m₂, m₀.Runs m₁ ∧ m₁.HaltsMasked ∧ Exec.step m₁ = .ok () m₂ ∧ m₂.Runs m) := by
  have h₀ := hLoaded.narrow_ready hCalm hModel
  exact ⟨(hRun.ready h₀).closed, hRun.haltsMasked h₀ hLoaded.awake.2⟩

theorem narrow_closed_sleeper :
    sleeper.Loaded ∧ sleeper.Calm ∧ sleeper.cpu.model = .i80186 ∧
      ∃ m, sleeper.Runs m ∧ m.irq.any = true ∧ (∀ high, m.Shuttered high) ∧ m.Closed := by
  have hModel : sleeper.cpu.model = .i80186 := rfl
  have hRun : sleeper.Runs { sleeper with irq := sleeper.irq.raise 3 } := .single (.raise _ 3)
  have hShut (high : Nat → UInt8) : { sleeper with irq := sleeper.irq.raise 3 }.Shuttered high :=
    ⟨a20_of_loadCom loadCom_sleeper, fun _ hd => absurd hd List.not_mem_nil⟩
  obtain ⟨hClosed, -⟩ := narrow_closed loaded_sleeper calm_sleeper (.inr hModel) hRun
  exact ⟨loaded_sleeper, calm_sleeper, hModel, _, hRun, by decide, hShut, hClosed⟩

end Machine

end X86
