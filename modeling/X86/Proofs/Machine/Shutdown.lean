import X86.Proofs.Interrupt.Lines
import X86.Proofs.Machine.Closed
import X86.Proofs.Machine.Escalation

/-!
# Dead machines

A shutdown leaves the processor where the last double fault got stuck. Only the attempts before it
are taken back, so the place is that of the instruction unless the frame was refused: then it is the
start of the handler that was not entered. Nor does death end the step: the timer moves on, and a
pending line is served as ever.

* `Exec.shutdown_place`: **where a shutdown leaves the processor.**
* `Machine.LeftAlone`: what is left of a step does nothing that programs can see.
* `Exec.step_of_dead`: **a dead machine is left alone exactly if no line is pending or interrupts
  are not accepted.**
-/

namespace X86

namespace Exec

variable {m m₁ m₂ m' : Machine} {e : Exception} {i : Instruction}

/-! ### Where a shutdown leaves the processor -/

/-- The machine that an exception is delivered on: a fault takes the instruction back. -/
def delivering (e : Exception) (s : Snapshot) (m : Machine) : Machine :=
  if e.isTrap then m else m.withCpu (·.restore s)

theorem raise_apply (e : Exception) (s : Snapshot) (m : Machine) :
    raise e s false m = (deliver e s >>= fun _ => pure ()) (delivering e s m) := by
  cases he : e.isTrap with
  | false =>
    rw [raise_fault he, delivering, he]
    rfl
  | true =>
    simp only [raise, he, delivering, if_true, Bool.false_eq_true, and_false, if_false]

theorem restore_delivering (e : Exception) (s : Snapshot) (m : Machine) :
    (delivering e s m).cpu.restore s = m.cpu.restore s := by
  rw [delivering]
  split <;> rfl

/-- The last attempt starts from the instruction taken back. -/
theorem cpu_of_reaches {s : Snapshot} {a : Attempt}
    (h : Attempt.Reaches s (.first e s (delivering e s m)) a) (ha : a.exception = .doubleFault) :
    a.machine.cpu = m.cpu.restore s := by
  rcases Relation.reflTransGen_iff_eq_or_transGen.1 h with rfl | hNext
  · obtain rfl : e = .doubleFault := ha
    rfl
  · rw [(Attempt.replacement_eq hNext).2.1]
    exact restore_delivering e s m

/-- **A shutdown leaves the processor where the instruction began, unless the frame of the last
double fault was refused. Then it leaves it at the handler of the double fault, with the stack
pointer below the values that were taken.** -/
theorem shutdown_place (hTrap : m.cpu.regs.flags.trap = false) (hFetch : fetch m = .ok i m₁)
    (hFault : perform i m₁ = .error (.fault e) m₂)
    (hShut : Undeliverable e m.cpu.snapshot (delivering e m.cpu.snapshot m₂)) :
    ∃ m₃ o third m₄ m', m₃.cpu = m₂.cpu.restore m.cpu.snapshot ∧
      interrupt 8 (some 0) false m₃ = .error (.fault third) m₄ ∧
      Refused 8 (some 0) false m₃ o third m₄ ∧
      executeNext m = .ok () m' ∧ m'.cpu.dead = true ∧
      m'.cpu.snapshot =
        match o with
        | .table | .gate | .target => m.cpu.snapshot
        | .frame g d n =>
          { cs := g.selector, eip := wrapOffset d.big g.offset,
            esp := (m₃.cpu.lowered (g.width.bytes * n)).regs.gprs.esp,
            csCache := d.markAccessed } := by
  obtain ⟨entered, m', hDeliver, hSettles⟩ :=
    deliver_settles e m.cpu.snapshot (delivering e m.cpu.snapshot m₂)
  obtain ⟨a, third, m₄, hReach, hDouble, hFirm, hRun, rfl⟩ := hSettles.exists_last hShut
  have hLast : interrupt 8 (some 0) false a.machine = .error (.fault third) m₄ := by
    rw [Attempt.run, hDouble, hFirm] at hRun
    exact hRun
  obtain ⟨o, third', hThird, hRefused⟩ := refused_of_error hLast
  cases hThird
  -- the double fault starts from the instruction, so only its own attempt is left to look at
  have hStart := cpu_of_reaches hReach hDouble
  have hNext : executeNext m = .ok () (m₄.shut third) := by
    refine executeNext_eq_ok.2 ⟨i, m₁, m₂, hFetch, .inr ⟨e, hFault, ?_⟩⟩
    rw [hTrap, raise_apply, bind_of_ok hDeliver]
    rfl
  refine ⟨a.machine, o, third, m₄, _, hStart, hLast, hRefused, hNext, rfl, ?_⟩
  have hPlace : (m₄.shut third).cpu.snapshot = m₄.cpu.snapshot := rfl
  rw [hPlace, hRefused.cpu_eq]
  cases o with
  | table | gate | target =>
    rw [Obstacle.stuck, hStart]
    rfl
  | frame g d n => exact Cpu.snapshot_lowered_atEntry ..

/-- Code in memory that is not installed, with a gate for the double fault only and a stack segment
of one byte. -/
def corneredMachine : Machine :=
  (tableMachine .i80386 (List.replicate 64 0 ++ gateTo 0x700)).withCpu fun c =>
    { c with caches := c.caches.set .ss { limit := 0, access := 0x93 } }

theorem shutdown_place_frame :
    corneredMachine.cpu.regs.flags.trap = false ∧ corneredMachine.cpu.regs.eip = 0x200 ∧
      ∃ m', executeNext corneredMachine = .ok () m' ∧ m'.cpu.dead = true ∧
        m'.cpu.regs.eip = 0x700 := by
  let s := corneredMachine.cpu.snapshot
  let i : Instruction := { operation := .invalid [0xFF, 0xFF] (.group 7), length := 2 }
  let m₂ := after (perform i) (fetched corneredMachine i)
  have hFetch : fetch corneredMachine = .ok i (fetched corneredMachine i) :=
    fetch_eq_ok.2 ⟨by decide +kernel, by decide +kernel, rfl⟩
  have hFault : perform i (fetched corneredMachine i) = .error (.fault .invalidOpcode) m₂ := by rfl
  have hDead : (ending? (deliver .invalidOpcode s) (delivering .invalidOpcode s m₂)).map
      (·.2.cpu.dead) = some true := by decide +kernel
  have hShut : Undeliverable .invalidOpcode s (delivering .invalidOpcode s m₂) := by
    obtain ⟨entered, m', hDeliver, hSettles⟩ :=
      deliver_settles .invalidOpcode s (delivering .invalidOpcode s m₂)
    rw [ending?_eq_some.2 hDeliver] at hDead
    exact (hSettles.dead_iff rfl).1 (Option.some.inj hDead)
  obtain ⟨-, -, -, -, m', -, -, -, hNext, hEnd, -⟩ := shutdown_place rfl hFetch hFault hShut
  have hPlace : (ending? executeNext corneredMachine).map (·.2.cpu.regs.eip) = some 0x700 := by
    decide +kernel
  rw [ending?_eq_some.2 hNext] at hPlace
  exact ⟨rfl, rfl, m', hNext, hEnd, Option.some.inj hPlace⟩

end Exec

/-! ### Pending lines -/

/-- To programs and devices the machine is the same, and no request has got lost. -/
structure Machine.LeftAlone (m m' : Machine) : Prop where
  cpu : m'.cpu = m.cpu
  bus : m'.bus = m.bus
  lines : ∀ n, m.irq.isPending n = true → m'.irq.isPending n = true

namespace Exec

variable {m m₁ m' : Machine}

theorem exists_serveVector (vector : UInt8) (m : Machine) :
    ∃ m', serveVector vector m = .ok () m' := by
  rw [serveVector, bind_of_ok (cpu_apply m)]
  cases hEnter : interrupt vector none false m with
  | ok _ m₁ => exact ⟨m₁, (bind_of_ok (attempt_eq_none.2 hEnter)).trans rfl⟩
  | error stop m₁ =>
    obtain ⟨o, e, rfl, -⟩ := refused_of_error hEnter
    obtain ⟨entered, m₂, hDeliver, -⟩ :=
      deliver_settles e m.cpu.snapshot (m₁.withCpu (·.restore m.cpu.snapshot))
    refine ⟨m₂, (bind_of_ok (attempt_eq_some.2 hEnter)).trans ?_⟩
    exact (bind_of_ok (modifyCpu_apply _ m₁)).trans ((bind_of_ok hDeliver).trans rfl)

/-- Either nothing is served, or the lowest pending line is, which is pending no more. -/
theorem serviceLines_cases (m : Machine) :
    ((m.irq.any && m.cpu.acceptsInterrupt) = false ∧ serviceLines m = .ok () m) ∨
      (m.irq.any && m.cpu.acceptsInterrupt) = true ∧
        ∃ n m', m.irq.lowest? = some n ∧ m.irq.isPending n = true ∧ serviceLines m = .ok () m' ∧
          serveVector (n.vector m.masterBase m.slaveBase) (woken m) = .ok () m' ∧
          m'.irq.isPending n = false := by
  rw [serviceLines_apply]
  cases hServes : m.irq.any && m.cpu.acceptsInterrupt with
  | false => exact .inl ⟨rfl, rfl⟩
  | true =>
    have hAny := (Bool.and_eq_true_iff.1 hServes).1
    obtain ⟨n, hLowest, hPending⟩ := IrqLines.exists_lowest hAny
    have hTake := IrqLines.takeLowest_eq hAny hLowest
    obtain ⟨m', hServe⟩ := exists_serveVector (n.vector m.masterBase m.slaveBase) (woken m)
    refine .inr ⟨rfl, n, m', hLowest, hPending, ?_, hServe, ?_⟩
    · rw [if_pos rfl, hTake]
      exact hServe
    · rw [((sure_serveVector _).changes.of_ok hServe).irq_eq]
      change m.irq.takeLowest.2.isPending n = false
      rw [hTake, IrqLines.isPending_lower]
      simp

theorem masked_of_deliver {e : Exception} {s : Snapshot} {entered : Bool}
    (h : deliver e s m = .ok entered m') (hMasked : m.cpu.regs.flags.interrupt = false) :
    m'.cpu.regs.flags.interrupt = false := by
  obtain ⟨entered', m₁, hDeliver, hSettles⟩ := deliver_settles e s m
  cases h.symm.trans hDeliver
  exact hSettles.masked hMasked

theorem masked_of_singleStep (h : singleStep m = .ok () m')
    (hMasked : m.cpu.regs.flags.interrupt = false) : m'.cpu.regs.flags.interrupt = false := by
  rw [singleStep, bind_of_ok (cpu_apply m)] at h
  obtain ⟨_, m₁, hDeliver, hEnd⟩ := bind_eq_ok.1 h
  cases hEnd
  exact masked_of_deliver hDeliver hMasked

theorem masked_of_raise {e : Exception} {s : Snapshot} {stepping : Bool}
    (h : raise e s stepping m = .ok () m') (hMasked : m.cpu.regs.flags.interrupt = false) :
    m'.cpu.regs.flags.interrupt = false := by
  -- with or without the instruction taken back
  have hEnd {m : Machine} (hMasked : m.cpu.regs.flags.interrupt = false)
      (h : (do
        let entered ← deliver e s
        if entered ∧ e.isTrap ∧ stepping then singleStep) m = .ok () m') :
      m'.cpu.regs.flags.interrupt = false := by
    obtain ⟨entered, m₁, hDeliver, hRest⟩ := bind_eq_ok.1 h
    have hStill := masked_of_deliver hDeliver hMasked
    split at hRest
    · exact masked_of_singleStep hRest hStill
    · cases hRest
      exact hStill
  rw [raise] at h
  split at h
  · exact hEnd hMasked h
  · exact hEnd (m := m.withCpu (·.restore s)) hMasked h

/-- An HLT while interrupts are masked leaves them masked, whatever it raises. -/
theorem masked_of_haltsMasked (hHalts : m.HaltsMasked) (h : executeNext m = .ok () m') :
    m'.cpu.regs.flags.interrupt = false := by
  obtain ⟨i, m₁, m₂, hFetch, hEnd⟩ := executeNext_eq_ok.1 h
  have hChanges := changes_fetched hFetch
  obtain ⟨-, rfl, rfl⟩ := fetch_eq_ok.1 hFetch
  have hKinds : (m.cpu.decodeNext m.bus).changes = [.halt, .death] := by
    rw [Instruction.changes, hHalts.instruction]
  rw [hKinds] at hChanges
  have hMasked (hEvolves : Evolves (· ∈ [ChangeKind.halt, .death])
      (fetched m (m.cpu.decodeNext m.bus)) m₂) : m₂.cpu.regs.flags.interrupt = false := by
    rw [hEvolves.flags_eq_of_unserved (K := (· ∈ [ChangeKind.halt, .death])) (by decide)
      (by decide)]
    exact hHalts.masked
  rcases hEnd with ⟨hOk, hStep⟩ | ⟨e, hError, hRaise⟩
  · split at hStep
    · exact masked_of_singleStep hStep (hMasked (hChanges.of_ok hOk))
    · cases hStep
      exact hMasked (hChanges.of_ok hOk)
  · exact masked_of_raise hRaise (hMasked (hChanges.of_error hError))

theorem not_delivers_service : ¬ Delivers .service := by simp [Delivers]

/-- **A dead machine is left alone exactly if no line is pending or interrupts are not accepted;
otherwise it serves the lowest pending line as if it were alive.** An HLT while interrupts are
masked is followed by nothing. -/
theorem step_of_dead (hExecutes : Executes m m₁) (hDead : m₁.cpu.dead = true)
    (hTimer : m₁.countdown ≠ 0) :
    ∃ m', step m = .ok () m' ∧ m'.cpu.dead = true ∧
      ((ticked m₁).LeftAlone m' ↔ ((ticked m₁).irq.any && m₁.cpu.acceptsInterrupt) = false) ∧
      (((ticked m₁).irq.any && m₁.cpu.acceptsInterrupt) = true →
        ∃ n, (ticked m₁).irq.lowest? = some n ∧
          serveVector (n.vector m₁.masterBase m₁.slaveBase) (woken (ticked m₁)) = .ok () m') ∧
      (m.HaltsMasked → (ticked m₁).LeftAlone m') := by
  have hTick := tick_of_ne hTimer
  have hCpu : (ticked m₁).cpu = m₁.cpu := (eq_of_tick hTick).1
  have hBases : (ticked m₁).masterBase = m₁.masterBase ∧ (ticked m₁).slaveBase = m₁.slaveBase := by
    rw [ticked]
    split <;> exact ⟨rfl, rfl⟩
  have hMasked (hHalts : m.HaltsMasked) : m₁.cpu.acceptsInterrupt = false := by
    rcases hExecutes with ⟨hHalted, -⟩ | ⟨-, hNext⟩
    · exact absurd (hHalted.symm.trans hHalts.awake) (by decide)
    · rw [Cpu.acceptsInterrupt, masked_of_haltsMasked hHalts hNext, Bool.false_and]
  have hCases := serviceLines_cases (ticked m₁)
  rw [hCpu, hBases.1, hBases.2] at hCases
  rcases hCases with ⟨hRefuses, hService⟩ |
    ⟨hServes, n, m', hLowest, hPending, hService, hServe, hTaken⟩
  · have hAlone : (ticked m₁).LeftAlone (ticked m₁) := ⟨rfl, rfl, fun _ => id⟩
    refine ⟨ticked m₁, step_eq_ok.2 ⟨m₁, _, hExecutes, hTick, hService⟩, ?_, ?_, ?_, ?_⟩
    · rw [hCpu]
      exact hDead
    · exact iff_of_true hAlone hRefuses
    · exact fun hServes => absurd (hServes.symm.trans hRefuses) (by decide)
    · exact fun _ => hAlone
  · refine ⟨m', step_eq_ok.2 ⟨m₁, _, hExecutes, hTick, hService⟩, ?_, ?_, ?_, ?_⟩
    · have hWoken : (woken (ticked m₁)).cpu.dead = true := by
        change (ticked m₁).cpu.dead = true
        rw [hCpu]
        exact hDead
      exact ((sure_serveVector _).changes.of_ok hServe).dead_of_dead_of_unserved
        not_delivers_service hWoken
    · refine iff_of_false (fun hAlone => ?_) fun hRefuses =>
        absurd (hServes.symm.trans hRefuses) (by decide)
      exact absurd ((hAlone.lines n hPending).symm.trans hTaken) (by decide)
    · exact fun _ => ⟨n, hLowest, hServe⟩
    · intro hHalts
      rw [hMasked hHalts, Bool.and_false] at hServes
      cases hServes

/-- Code in memory that is not installed, no gate for what it raises, and one for line 1, which is
pending. -/
def lateMachine : Machine :=
  { (tableMachine .i80386 (List.replicate 72 0 ++ gateTo 0x700)).withCpu fun c =>
      c.setFlags { interrupt := true } with irq := ⟨2⟩ }

theorem step_of_dead_served :
    ∃ m₁ m', executeNext lateMachine = .ok () m₁ ∧ m₁.cpu.dead = true ∧
      m₁.cpu.regs.eip = 0x200 ∧ step lateMachine = .ok () m' ∧ m'.cpu.dead = true ∧
      ¬ (ticked m₁).LeftAlone m' := by
  have hEnd : (ending? executeNext lateMachine).map
      (fun r => (r.2.cpu.dead, r.2.cpu.regs.eip, r.2.countdown,
        (ticked r.2).irq.any && r.2.cpu.acceptsInterrupt)) = some (true, 0x200, 65536, true) := by
    decide +kernel
  obtain ⟨⟨_, m₁⟩, hEnding, hSummary⟩ := Option.map_eq_some_iff.1 hEnd
  have hNext := ending?_eq_some.1 hEnding
  simp only [Prod.mk.injEq] at hSummary
  obtain ⟨hDead, hEip, hTimer, hServes⟩ := hSummary
  obtain ⟨m', hStep, hStill, hAlone, -⟩ :=
    step_of_dead (.inr ⟨rfl, hNext⟩) hDead (by rw [hTimer]; decide)
  refine ⟨m₁, m', hNext, hDead, hEip, hStep, hStill, fun h => ?_⟩
  exact absurd (hServes.symm.trans (hAlone.1 h)) (by decide)

end Exec

end X86
