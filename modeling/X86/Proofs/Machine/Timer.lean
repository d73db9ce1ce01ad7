import X86.Proofs.Execute.Lawful
import X86.Proofs.Machine.Shutdown

/-!
# The timer

Each step moves the timer on once, whatever else happens in it: the processor may wait, an
instruction may fail, a request may be served in the same step. Nothing but this touches the timer,
so what is left of its period says how many steps there have been.

* `Machine.Ticks`: runs, with a note for each step that says whether the timer raised its line.
* `Machine.OnSchedule`: the invariant, that the countdown and the steps since the last request make
  up the period.
* `Exec.step_timer`: what a step does to the timer.
* `Exec.step_answers`: **a step comes to its end unless there is nothing to fetch from**.
* `Machine.timer_periodic`: **the timer raises its line once a period and never runs below one**.
-/

namespace X86

/-! ### Multiples of the period -/

theorem succ_mod_period {p : Nat} (hp : 0 < p) (k : Nat) :
    (k + 1) % p = if k % p + 1 = p then 0 else k % p + 1 := by
  have hLeft := Nat.mod_lt k hp
  rw [← Nat.mod_add_mod]
  split
  · rename_i hLast
    rw [hLast, Nat.mod_self]
  · exact Nat.mod_eq_of_lt (by omega)

/-- Among the first `k` numbers from one on there are `k / p` multiples of `p`. -/
theorem count_multiples (p k : Nat) :
    ((List.range k).map fun n => decide (p ∣ n + 1)).count true = k / p := by
  induction k with
  | zero => exact (Nat.zero_div p).symm
  | succ k ih =>
    rw [List.range_succ, List.map_append, List.count_append, ih, Nat.succ_div]
    by_cases hLast : p ∣ k + 1 <;> simp [hLast]

/-! ### The timer and what leaves it alone -/

namespace Machine

/-- The line that the timer raises. -/
def timerLine : Line := ⟨0, Nat.zero_lt_succ 15⟩

/-- The period and what is left of it are the same. -/
structure KeepsTimer (m m' : Machine) : Prop where
  period : m'.period = m.period
  countdown : m'.countdown = m.countdown

/-- When the timer moves on it raises its line: where nothing was pending, the line is. -/
def TimerRaises (m : Machine) : Prop :=
  ∃ m', Exec.tick { m with irq := {} } = .ok () m' ∧ m'.irq.isPending timerLine = true

namespace KeepsTimer

variable {m m₁ m' : Machine}

theorem refl (m : Machine) : m.KeepsTimer m := ⟨rfl, rfl⟩

theorem trans (h : m.KeepsTimer m₁) (h' : m₁.KeepsTimer m') : m.KeepsTimer m' :=
  ⟨h'.period.trans h.period, h'.countdown.trans h.countdown⟩

theorem of_evolves {K : ChangeKind → Prop} (h : Evolves K m m') : m.KeepsTimer m' :=
  ⟨h.period_eq, h.countdown_eq⟩

end KeepsTimer

end Machine

namespace Exec

open Machine (KeepsTimer timerLine)

variable {m m₁ m' : Machine} {s : Stop}

theorem irq_ticked (m : Machine) :
    (ticked m).irq = if m.countdown = 1 then m.irq.raise timerLine else m.irq := by
  rw [ticked]
  split <;> rfl

theorem period_ticked (m : Machine) : (ticked m).period = m.period := by
  rw [ticked]
  split <;> rfl

theorem countdown_ticked (m : Machine) :
    (ticked m).countdown = if m.countdown = 1 then m.period else m.countdown - 1 := by
  rw [ticked]
  split <;> rfl

theorem timerRaises_iff (hm : m.countdown ≠ 0) : m.TimerRaises ↔ m.countdown = 1 := by
  have hTick := tick_of_ne (m := { m with irq := {} }) hm
  have hLines : (ticked { m with irq := {} }).irq =
      if m.countdown = 1 then IrqLines.raise {} timerLine else {} := irq_ticked _
  constructor
  · rintro ⟨m', hMoved, hPending⟩
    cases hTick.symm.trans hMoved
    rw [hLines] at hPending
    split at hPending
    · assumption
    · exact absurd hPending (by decide)
  · intro hLast
    refine ⟨_, hTick, ?_⟩
    rw [hLines, if_pos hLast]
    decide

/-! ### What a step does to the timer -/

theorem keepsTimer_fetch {i : Instruction} (h : fetch m = .ok i m') : m.KeepsTimer m' := by
  obtain ⟨-, -, rfl⟩ := fetch_eq_ok.1 h
  exact ⟨rfl, rfl⟩

theorem Executes.keepsTimer (h : Executes m m₁) : m.KeepsTimer m₁ := by
  rcases h with ⟨-, rfl⟩ | ⟨-, hNext⟩
  · exact .refl _
  · obtain ⟨i, m₂, m₃, hFetch, hPerform, hEnd⟩ := evolves_executeNext hNext
    exact (keepsTimer_fetch hFetch).trans
      ((KeepsTimer.of_evolves hPerform).trans (.of_evolves hEnd))

theorem keepsTimer_serviceLines (h : serviceLines m = .ok () m') : m.KeepsTimer m' := by
  rcases serviceLines_eq_ok h with rfl | ⟨-, rfl | hServed⟩
  · exact .refl _
  · exact ⟨rfl, rfl⟩
  · have hWoken : m.KeepsTimer (woken m) := ⟨rfl, rfl⟩
    exact hWoken.trans (.of_evolves hServed)

/-- **A step moves the timer on once.** -/
theorem step_timer (hExecutes : Executes m m₁) (hStep : step m = .ok () m') :
    m'.period = m.period ∧
      m'.countdown = if m.countdown = 1 then m.period else m.countdown - 1 := by
  have hBefore := hExecutes.keepsTimer
  have hAfter := keepsTimer_serviceLines (serviceLines_of_step hExecutes hStep)
  constructor
  · rw [hAfter.period, period_ticked, hBefore.period]
  · rw [hAfter.countdown, countdown_ticked, hBefore.period, hBefore.countdown]

/-! ### Where a step stops -/

theorem exists_singleStep (m : Machine) : ∃ m', singleStep m = .ok () m' := by
  obtain ⟨entered, m', hDeliver, -⟩ := deliver_settles .debug m.cpu.snapshot m
  exact ⟨m', (bind_of_ok (cpu_apply m)).trans (bind_of_ok hDeliver)⟩

theorem exists_raise (e : Exception) (start : Snapshot) (stepping : Bool) (m : Machine) :
    ∃ m', raise e start stepping m = .ok () m' := by
  -- with or without the instruction taken back
  have hEnd (m : Machine) : ∃ m', (do
      let entered ← deliver e start
      if entered ∧ e.isTrap ∧ stepping then singleStep) m = .ok () m' := by
    obtain ⟨entered, m₁, hDeliver, -⟩ := deliver_settles e start m
    rw [bind_of_ok hDeliver]
    split
    · exact exists_singleStep m₁
    · exact ⟨m₁, rfl⟩
  rw [raise]
  split
  · exact hEnd m
  · exact hEnd (m.withCpu (·.restore start))

/-- What stops a fetched instruction is an exception. -/
theorem fault_of_perform {i : Instruction} (hFetch : fetch m = .ok i m₁)
    (h : perform i m₁ = .error s m') : ∃ e, s = .fault e := by
  obtain ⟨-, rfl, rfl⟩ := fetch_eq_ok.1 hFetch
  let next := fetched m (m.cpu.decodeNext m.bus)
  cases hValid : (m.cpu.decodeNext m.bus).isValid with
  | true => exact (perform_decoded next (m.cpu.code m.bus) hValid).2.2.1 s m' h
  | false =>
    obtain ⟨m₂, hRun⟩ := perform_of_invalid hValid isString_of_rep next
    cases hRun.symm.trans h
    exact ⟨_, rfl⟩

/-- Only the fetch can keep an instruction from coming to its end. -/
theorem executes_or_overflows (m : Machine) :
    (∃ m₁, Executes m m₁) ∨
      m.cpu.halted = false ∧ (m.cpu.code m.bus).overflows = true ∧
        executeNext m = .error (.violation .codeOffset) m := by
  cases hHalted : m.cpu.halted with
  | true => exact .inl ⟨m, .inl ⟨hHalted, rfl⟩⟩
  | false =>
    cases hFetch : fetch m with
    | error s m' =>
      obtain ⟨rfl, hOverflows, rfl⟩ := fetch_stops hFetch
      exact .inr ⟨rfl, hOverflows, (bind_of_ok (cpu_apply m')).trans (bind_of_error hFetch)⟩
    | ok i m₁ =>
      refine .inl ?_
      cases hPerform : perform i m₁ with
      | ok _ m₂ =>
        have hStep : ∃ m', (if m.cpu.regs.flags.trap then singleStep else pure ()) m₂ =
            .ok () m' := by
          split
          · exact exists_singleStep m₂
          · exact ⟨m₂, rfl⟩
        obtain ⟨m', hStep⟩ := hStep
        exact ⟨m', .inr ⟨hHalted,
          executeNext_eq_ok.2 ⟨i, m₁, m₂, hFetch, .inl ⟨hPerform, hStep⟩⟩⟩⟩
      | error s m₂ =>
        obtain ⟨e, rfl⟩ := fault_of_perform hFetch hPerform
        obtain ⟨m', hRaise⟩ := exists_raise e m.cpu.snapshot m.cpu.regs.flags.trap m₂
        exact ⟨m', .inr ⟨hHalted,
          executeNext_eq_ok.2 ⟨i, m₁, m₂, hFetch, .inr ⟨e, hPerform, hRaise⟩⟩⟩⟩

/-- **A step comes to its end unless there is nothing to fetch from.** -/
theorem step_answers (hm : m.countdown ≠ 0) :
    (∃ m', step m = .ok () m') ∨
      m.cpu.halted = false ∧ (m.cpu.code m.bus).overflows = true ∧
        step m = .error (.violation .codeOffset) m := by
  rcases executes_or_overflows m with ⟨m₁, hExecutes⟩ | ⟨hAwake, hOverflows, hNext⟩
  · refine .inl ?_
    have hTick := tick_of_ne (m := m₁) (hExecutes.keepsTimer.countdown ▸ hm)
    rcases serviceLines_cases (ticked m₁) with ⟨-, hService⟩ | ⟨-, -, m', -, -, hService, -, -⟩
    · exact ⟨_, step_eq_ok.2 ⟨m₁, _, hExecutes, hTick, hService⟩⟩
    · exact ⟨m', step_eq_ok.2 ⟨m₁, _, hExecutes, hTick, hService⟩⟩
  · refine .inr ⟨hAwake, hOverflows, ?_⟩
    rw [step, bind_of_ok (cpu_apply m), if_neg (by rw [hAwake]; decide)]
    exact bind_of_error hNext

end Exec

namespace Machine

/-! ### Runs -/

/-- A run from a machine, with a note for each step that says whether its tick raised the line of
the timer. Between the steps the host does what it likes with everything but the timer. -/
inductive Ticks (m₀ : Machine) : List Bool → Machine → Prop where
  | start : Ticks m₀ [] m₀
  | host {raised : List Bool} {m m' : Machine} (hRun : Ticks m₀ raised m) (h : m.KeepsTimer m') :
    Ticks m₀ raised m'
  | step {raised : List Bool} {m m₁ m' : Machine} {b : Bool} (hRun : Ticks m₀ raised m)
    (hExecutes : Exec.Executes m m₁) (hStep : Exec.step m = .ok () m')
    (hRaises : b = true ↔ m₁.TimerRaises) : Ticks m₀ (raised ++ [b]) m'

/-- Where the timer is after `k` steps: what is left of the period and the steps since the last
request make it up. -/
structure OnSchedule (p k : Nat) (m : Machine) : Prop where
  period : m.period = p
  countdown : m.countdown + k % p = p

variable {p k : Nat} {m m₁ m' : Machine} {raised : List Bool}

theorem onSchedule_ofSettings (s : Settings) : (ofSettings s).OnSchedule (max s.period 1) 0 :=
  ⟨rfl, congrArg (max s.period 1 + ·) (Nat.zero_mod _)⟩

namespace OnSchedule

theorem keepsTimer (h : m.OnSchedule p k) (hTimer : m.KeepsTimer m') : m'.OnSchedule p k :=
  ⟨hTimer.period.trans h.period, hTimer.countdown ▸ h.countdown⟩

/-- The timer runs between one and its period. -/
theorem countdown_mem (h : m.OnSchedule p k) (hp : 0 < p) : 1 ≤ m.countdown ∧ m.countdown ≤ p := by
  have hLeft := Nat.mod_lt k hp
  have hSum := h.countdown
  omega

/-- The countdown is at its last step exactly if the next step completes a period. -/
theorem countdown_eq_one_iff (h : m.OnSchedule p k) (hp : 0 < p) :
    m.countdown = 1 ↔ p ∣ k + 1 := by
  have hSum := h.countdown
  rw [Nat.dvd_iff_mod_eq_zero, succ_mod_period hp]
  split <;> omega

theorem timerRaises_iff (h : m.OnSchedule p k) (hp : 0 < p) : m.TimerRaises ↔ p ∣ k + 1 := by
  have hSome := (h.countdown_mem hp).1
  rw [Exec.timerRaises_iff (by omega), h.countdown_eq_one_iff hp]

theorem step (h : m.OnSchedule p k) (hp : 0 < p) (hExecutes : Exec.Executes m m₁)
    (hStep : Exec.step m = .ok () m') : m'.OnSchedule p (k + 1) := by
  obtain ⟨hPeriod, hCountdown⟩ := Exec.step_timer hExecutes hStep
  refine ⟨hPeriod.trans h.period, ?_⟩
  have hSum := h.countdown
  have hSome := (h.countdown_mem hp).1
  rw [hCountdown, h.period, succ_mod_period hp]
  split <;> split <;> omega

end OnSchedule

namespace Ticks

theorem onSchedule {m₀ : Machine} (h : m₀.Ticks raised m) (hp : 0 < p)
    (h₀ : m₀.OnSchedule p 0) : m.OnSchedule p raised.length := by
  induction h with
  | start => exact h₀
  | host _ hTimer ih => exact ih.keepsTimer hTimer
  | step _ hExecutes hStep _ ih =>
    rw [List.length_append]
    exact ih.step hp hExecutes hStep

/-- A step's note says whether the step completed a period. -/
theorem eq_map {m₀ : Machine} (h : m₀.Ticks raised m) (hp : 0 < p) (h₀ : m₀.OnSchedule p 0) :
    raised = (List.range raised.length).map fun n => decide (p ∣ n + 1) := by
  induction h with
  | start => rfl
  | host _ _ ih => exact ih
  | @step raised m m₁ m' b hRun hExecutes _ hRaises ih =>
    have hBefore := (hRun.onSchedule hp h₀).keepsTimer hExecutes.keepsTimer
    have hNote : b = decide (p ∣ raised.length + 1) :=
      Bool.eq_iff_iff.2 (hRaises.trans ((hBefore.timerRaises_iff hp).trans decide_eq_true_iff.symm))
    rw [List.length_append, List.length_singleton, List.range_succ, List.map_append]
    exact congr (congrArg _ ih) (congrArg ([·]) hNote)

theorem getElem?_eq_true {m₀ : Machine} (h : m₀.Ticks raised m) (hp : 0 < p)
    (h₀ : m₀.OnSchedule p 0) (n : Nat) :
    raised[n]? = some true ↔ n < raised.length ∧ p ∣ n + 1 := by
  have hNote := congrArg (fun notes => notes[n]?) (h.eq_map hp h₀)
  by_cases hn : n < raised.length
  · simp only [List.getElem?_map, List.getElem?_range hn, Option.map_some] at hNote
    rw [hNote, Option.some_inj, decide_eq_true_iff]
    exact (and_iff_right hn).symm
  · rw [List.getElem?_eq_none (Nat.le_of_not_lt hn)]
    exact iff_of_false (fun h => by cases h) fun h => hn h.1

/-- A step that comes to its end goes on with the run. -/
theorem advance {m₀ : Machine} (h : m₀.Ticks raised m) (hp : 0 < p) (h₀ : m₀.OnSchedule p 0)
    (hEnds : (Exec.ending? Exec.step m).isSome = true) :
    m₀.Ticks (raised ++ [decide (p ∣ raised.length + 1)]) (Exec.after Exec.step m) := by
  have hStep := Exec.ok_after hEnds
  obtain ⟨m₁, m₂, hExecutes, -⟩ := Exec.step_eq_ok.1 hStep
  have hBefore := (h.onSchedule hp h₀).keepsTimer hExecutes.keepsTimer
  exact h.step hExecutes hStep (decide_eq_true_iff.trans (hBefore.timerRaises_iff hp).symm)

end Ticks

/-- **The timer raises its line once a period.** After `k` steps of a run from a new machine,
whatever ran and whether the processor waited, it has done so `k / p` times, in the steps whose
numbers are multiples of `p`; the next step goes on like this. Between steps the countdown is at
least one and at most `p`, so no step finds it used up, and nothing but the end of the address space
stops one. -/
theorem timer_periodic (s : Settings) {raised : List Bool} {m : Machine}
    (h : (ofSettings s).Ticks raised m) :
    raised.count true = raised.length / max s.period 1 ∧
      (∀ n, raised[n]? = some true ↔ n < raised.length ∧ max s.period 1 ∣ n + 1) ∧
      1 ≤ m.countdown ∧ m.countdown ≤ max s.period 1 ∧
      (∀ m₁, Exec.Executes m m₁ → ∃ m₂, Exec.tick m₁ = .ok () m₂ ∧
        m₂.irq = if max s.period 1 ∣ raised.length + 1 then m₁.irq.raise timerLine else m₁.irq) ∧
      ((∃ m', Exec.step m = .ok () m') ∨
        m.cpu.halted = false ∧ (m.cpu.code m.bus).overflows = true ∧
          Exec.step m = .error (.violation .codeOffset) m) := by
  have hp : 0 < max s.period 1 := Nat.lt_of_lt_of_le Nat.one_pos (Nat.le_max_right ..)
  have hNotes := h.eq_map hp (onSchedule_ofSettings s)
  have hTimer := h.onSchedule hp (onSchedule_ofSettings s)
  obtain ⟨hSome, hMost⟩ := hTimer.countdown_mem hp
  refine ⟨?_, h.getElem?_eq_true hp (onSchedule_ofSettings s), hSome, hMost, fun m₁ hExecutes => ?_,
    Exec.step_answers (by omega)⟩
  · calc
      raised.count true = _ := congrArg (List.count true) hNotes
      _ = raised.length / max s.period 1 := count_multiples ..
  · have hBefore := hTimer.keepsTimer hExecutes.keepsTimer
    have hLeft := (hBefore.countdown_mem hp).1
    refine ⟨_, Exec.tick_of_ne (by omega), ?_⟩
    rw [Exec.irq_ticked, ite_cond_congr (propext (hBefore.countdown_eq_one_iff hp))]

/-- A new machine with a period of two steps. -/
def shortPeriod : Settings := { model := .i80386, period := 2 }

/-- The host has put the processor before an HLT in the graphics window, with interrupts enabled. -/
def dozer : Machine :=
  { ofSettings shortPeriod with
    cpu := { model := .i80386, regs := { eip := Bus.windowStart, flags := { interrupt := true } } }
    bus := { ram := ⟨⟨#[0, 0]⟩⟩, window := some ⟨fun _ _ => 0xF4⟩ } }

/-- The first step halts, in the second one the timer ends the wait, the third one runs again. -/
theorem timer_periodic_halted :
    let m₁ := Exec.after Exec.step dozer
    let m₂ := Exec.after Exec.step m₁
    let m₃ := Exec.after Exec.step m₂
    m₁.cpu.halted = true ∧ m₂.cpu.halted = false ∧
      (ofSettings shortPeriod).Ticks [false, true, false] m₃ ∧
      1 ≤ m₃.countdown ∧ m₃.countdown ≤ 2 ∧ ∃ m', Exec.step m₃ = .ok () m' := by
  intro m₁ m₂ m₃
  let m₀ := ofSettings shortPeriod
  have hStart : m₀.OnSchedule 2 0 := onSchedule_ofSettings shortPeriod
  have hBegin : m₀.Ticks [] dozer := .host .start ⟨rfl, rfl⟩
  have hFirst : m₀.Ticks [false] m₁ := hBegin.advance (by decide) hStart (by decide +kernel)
  have hSecond : m₀.Ticks [false, true] m₂ := hFirst.advance (by decide) hStart (by decide +kernel)
  have hThird : m₀.Ticks [false, true, false] m₃ :=
    hSecond.advance (by decide) hStart (by decide +kernel)
  obtain ⟨-, -, hSome, hMost, -, hNext⟩ := timer_periodic shortPeriod hThird
  have hCode : (m₃.cpu.code m₃.bus).overflows = false := by decide +kernel
  refine ⟨by decide +kernel, by decide +kernel, hThird, hSome, hMost,
    hNext.resolve_right fun h => ?_⟩
  exact Bool.false_ne_true (hCode.symm.trans h.2.1)

end Machine

end X86
