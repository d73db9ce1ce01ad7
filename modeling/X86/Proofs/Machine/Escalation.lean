import X86.Proofs.Machine.Gate
import X86.Proofs.Machine.Run

/-!
# Escalation

An exception that is refused is replaced: one that an instruction asked for by what its gate raised,
any other one by a double fault. The instruction is taken back before each further attempt, and with
the double fault refused the processor is dead.

* `Attempt`, `Attempt.next?`: the attempts at a delivery, and what replaces a refused one.
* `Attempt.Settles`: what the attempts from one on come to.
* `Exec.deliver_settles`: a delivery always answers, with what its attempts come to.
* `Attempt.Settles.dead_iff`: the processor dies exactly if every attempt is refused.
* `Exec.deliver_outcome`: **an exception enters its own handler, or one in its place from the
  instruction taken back, or it kills the processor.**
-/

namespace X86

/-! ### Attempts -/

/-- An attempt to enter a handler. -/
structure Attempt where
  exception : Exception
  /-- The gate is asked as for a software interrupt. -/
  software : Bool
  /-- The machine that enters the handler. -/
  machine : Machine

namespace Machine

/-- The machine that has noted an exception. -/
def raising (m : Machine) (e : Exception) (s : Snapshot) : Machine :=
  m.record (.raised e { cs := s.cs, eip := s.eip })

/-- The machine that has noted a refusal and taken the instruction back. -/
def backTo (m : Machine) (s : Snapshot) (note : LogEntry) : Machine :=
  (m.record note).withCpu (·.restore s)

/-- The machine that has given up. -/
def shut (m : Machine) (third : Exception) : Machine :=
  (m.record (.shutdown m.place third)).withCpu fun c => { c with dead := true }

end Machine

namespace Attempt

/-- The first attempt at the delivery of an exception. -/
def first (e : Exception) (s : Snapshot) (m : Machine) : Attempt :=
  ⟨e, e.isSoftware, m.raising e s⟩

/-- What an attempt comes to. -/
def run (a : Attempt) : EStateM.Result Stop Machine Unit :=
  Exec.interrupt a.exception.vector a.exception.errorCode a.software a.machine

/-- The attempt is refused. -/
def Refuses (a : Attempt) : Prop := ∃ second m, a.run = .error (.fault second) m

/-- The attempt in place of one that has raised `second` and got stuck with `m`. Nothing replaces a
double fault. -/
def next? (s : Snapshot) (a : Attempt) (second : Exception) (m : Machine) : Option Attempt :=
  if a.software then
    some ⟨second, false, (m.backTo s (.refused second a.exception)).raising second s⟩
  else if a.exception = .doubleFault then none
  else some ⟨.doubleFault, false, m.backTo s (.escalated second a.exception)⟩

theorem next?_fault (s : Snapshot) (e second : Exception) (m m' : Machine) :
    next? s ⟨e, false, m⟩ second m' =
      if e = .doubleFault then none
      else some ⟨.doubleFault, false, m'.backTo s (.escalated second e)⟩ := rfl

/-- The attempt is refused, and the other one is made in its place. -/
def Next (s : Snapshot) (a b : Attempt) : Prop :=
  ∃ second m, a.run = .error (.fault second) m ∧ a.next? s second m = some b

/-- Any number of replacements. -/
def Reaches (s : Snapshot) : Attempt → Attempt → Prop := Relation.ReflTransGen (Next s)

/-- What the attempts from one on come to: whether its own handler was entered, and the machine
after the last one. -/
inductive Settles (s : Snapshot) : Attempt → Bool → Machine → Prop where
  | entered {a : Attempt} {m' : Machine} (h : a.run = .ok () m') : Settles s a true m'
  | replaced {a b : Attempt} {second : Exception} {m m' : Machine} {entered : Bool}
    (h : a.run = .error (.fault second) m) (hNext : a.next? s second m = some b)
    (hb : Settles s b entered m') : Settles s a false m'
  | shut {a : Attempt} {second : Exception} {m : Machine} (h : a.run = .error (.fault second) m)
    (hNext : a.next? s second m = none) : Settles s a false (m.shut second)

variable {s : Snapshot} {a b c : Attempt} {m m' : Machine} {second : Exception} {entered : Bool}

theorem run_cases (a : Attempt) : (∃ m', a.run = .ok () m') ∨ a.Refuses := by
  cases h : a.run with
  | ok _ m' => exact .inl ⟨m', rfl⟩
  | error stop m' =>
    obtain ⟨o, second, rfl, -⟩ := Exec.refused_of_error h
    exact .inr ⟨second, m', h⟩

/-! ### What a replacement starts from -/

theorem Next.software_eq (h : Next s a b) : b.software = false := by
  obtain ⟨second, m, -, h⟩ := h
  rw [next?] at h
  split at h
  · cases h
    rfl
  · split at h <;> cases h
    rfl

/-- Before each further attempt the instruction is taken back. -/
theorem Next.cpu_eq (h : Next s a b) : b.machine.cpu = a.machine.cpu.restore s := by
  obtain ⟨second, m, hRun, h⟩ := h
  obtain ⟨o, e, -, hRefused⟩ := Exec.refused_of_error hRun
  rw [← hRefused.restore_eq s]
  rw [next?] at h
  split at h
  · cases h
    rfl
  · split at h <;> cases h
    rfl

/-- A double fault replaces everything, except what the gate of a software exception has raised. -/
theorem Next.exception_eq (h : Next s a b) :
    b.exception = .doubleFault ∨
      a.software = true ∧ ∃ m, a.run = .error (.fault b.exception) m := by
  obtain ⟨second, m, hRun, h⟩ := h
  rw [next?] at h
  split at h
  · rename_i hSoftware
    cases h
    exact .inr ⟨hSoftware, m, hRun⟩
  · split at h <;> cases h
    exact .inl rfl

/-- Every replacement starts from the instruction taken back. -/
theorem replacement_eq (h : Relation.TransGen (Next s) a b) :
    b.software = false ∧ b.machine.cpu = a.machine.cpu.restore s ∧
      (b.exception = .doubleFault ∨
        a.software = true ∧ ∃ m, a.run = .error (.fault b.exception) m) := by
  induction h with
  | single h => exact ⟨h.software_eq, h.cpu_eq, h.exception_eq⟩
  | tail _ hLast ih =>
    obtain ⟨hSoftware, hCpu, -⟩ := ih
    refine ⟨hLast.software_eq, ?_, .inl ?_⟩
    · rw [hLast.cpu_eq, hCpu, Cpu.restore_restore]
    · exact hLast.exception_eq.resolve_right fun h => absurd (hSoftware.symm.trans h.1) (by decide)

/-! ### Death -/

theorem dead_after_interrupt (vector : UInt8) (errorCode : Option UInt16) (software : Bool)
    (m : Machine) :
    (Exec.after (Exec.interrupt vector errorCode software) m).cpu.dead = m.cpu.dead := by
  have hChanges : Exec.Changes Exec.Enters (Exec.interrupt vector errorCode software) :=
    .interrupt (.inl rfl) (.inr rfl) vector errorCode software
  exact (hChanges m).dead_eq_of_unserved (by simp [Exec.Enters]) (by simp [Exec.Enters])

theorem dead_of_run (h : a.run = .ok () m') : m'.cpu.dead = a.machine.cpu.dead := by
  rw [← Exec.after_of_ok h]
  exact dead_after_interrupt ..

theorem Next.dead_eq (h : Next s a b) : b.machine.cpu.dead = a.machine.cpu.dead := by
  rw [h.cpu_eq]
  rfl

/-- An attempt comes to one end only, so at most one other is made in its place. -/
theorem Next.next?_eq (hb : Next s a b) (h : a.run = .error (.fault second) m) :
    a.next? s second m = some b := by
  obtain ⟨second', m', hRun, hNext⟩ := hb
  cases h.symm.trans hRun
  exact hNext

/-- What can be reached from a refused attempt is that attempt or can be reached from its
replacement. -/
theorem Reaches.of_next (h : Next s a b) (hc : Reaches s a c) : c = a ∨ Reaches s b c := by
  rcases Relation.ReflTransGen.cases_head hc with rfl | ⟨b', hb', hc⟩
  · exact .inl rfl
  · obtain ⟨second, m, hRun, hNext⟩ := h
    cases hNext.symm.trans (hb'.next?_eq hRun)
    exact .inr hc

/-- **The processor dies exactly if every attempt is refused.** -/
theorem Settles.dead_iff (h : Settles s a entered m') (hAlive : a.machine.cpu.dead = false) :
    m'.cpu.dead = true ↔ ∀ b, Reaches s a b → b.Refuses := by
  -- going back to the instruction does not revive, so every attempt starts alive
  induction h with
  | @entered a m' h =>
    rw [dead_of_run h, hAlive]
    refine ⟨nofun, fun hAll => ?_⟩
    obtain ⟨second, m, hRefused⟩ := hAll a .refl
    cases h.symm.trans hRefused
  | @replaced a b second m m' entered h hNext hb ih =>
    have hStep : Next s a b := ⟨second, m, h, hNext⟩
    rw [ih (hStep.dead_eq.trans hAlive)]
    constructor
    · intro hAll c hc
      rcases Reaches.of_next hStep hc with rfl | hc
      · exact ⟨second, m, h⟩
      · exact hAll c hc
    · exact fun hAll c hc => hAll c (.head hStep hc)
  | @shut a second m h hNext =>
    refine ⟨fun _ c hc => ?_, fun _ => rfl⟩
    rcases Relation.ReflTransGen.cases_head hc with rfl | ⟨b, hb, -⟩
    · exact ⟨second, m, h⟩
    · cases hNext.symm.trans (hb.next?_eq h)

theorem Settles.run_eq (h : Settles s a entered m') (hAlive : m'.cpu.dead = false) :
    (entered = true ∧ a.run = .ok () m') ∨
      entered = false ∧ ∃ b, Relation.TransGen (Next s) a b ∧ b.run = .ok () m' := by
  induction h with
  | entered h => exact .inl ⟨rfl, h⟩
  | replaced h hNext _ ih =>
    refine .inr ⟨rfl, ?_⟩
    rcases ih hAlive with ⟨-, hRun⟩ | ⟨-, c, hc, hRun⟩
    · exact ⟨_, .single ⟨_, _, h, hNext⟩, hRun⟩
    · exact ⟨c, .head ⟨_, _, h, hNext⟩ hc, hRun⟩
  | shut h => cases hAlive

theorem Settles.entered_eq (h : Settles s a entered m') (hAlive : a.machine.cpu.dead = false)
    (hDead : m'.cpu.dead = true) : entered = false := by
  cases h with
  | entered h => exact absurd (hDead.symm.trans ((dead_of_run h).trans hAlive)) (by decide)
  | replaced | shut => rfl

/-- Where every attempt is refused, the last one is a double fault. -/
theorem Settles.exists_last (h : Settles s a entered m')
    (hAll : ∀ b, Reaches s a b → b.Refuses) :
    ∃ b third m, Reaches s a b ∧ b.exception = .doubleFault ∧ b.software = false ∧
      b.run = .error (.fault third) m ∧ m' = m.shut third := by
  induction h with
  | @entered a m' h =>
    obtain ⟨second, m, hRefused⟩ := hAll a .refl
    cases h.symm.trans hRefused
  | replaced h hNext _ ih =>
    obtain ⟨c, third, m, hReach, hLast⟩ := ih fun c hc => hAll c (.head ⟨_, _, h, hNext⟩ hc)
    exact ⟨c, third, m, .head ⟨_, _, h, hNext⟩ hReach, hLast⟩
  | @shut a second m h hNext =>
    rw [next?] at hNext
    split at hNext
    · cases hNext
    · rename_i hSoftware
      split at hNext
      · rename_i hDouble
        exact ⟨a, second, m, .refl, hDouble, by simpa using hSoftware, h, rfl⟩
      · cases hNext

theorem Settles.masked (h : Settles s a entered m')
    (hMasked : a.machine.cpu.regs.flags.interrupt = false) :
    m'.cpu.regs.flags.interrupt = false := by
  induction h with
  | entered h => exact Exec.masked_of_interrupt h hMasked
  | @replaced a b second m m' entered h hNext _ ih =>
    have hStep : Next s a b := ⟨second, m, h, hNext⟩
    refine ih ?_
    rw [hStep.cpu_eq]
    exact hMasked
  | @shut a second m h hNext =>
    obtain ⟨o, e, -, hRefused⟩ := Exec.refused_of_error h
    exact (congrArg Flags.interrupt hRefused.flags_eq).trans hMasked

end Attempt

/-! ### Deliveries -/

namespace Exec

variable {s : Snapshot}

theorem enterHandler_of_ok {e : Exception} {software : Bool} {m m' : Machine}
    (h : (Attempt.mk e software (m.raising e s)).run = .ok () m') :
    enterHandler e software s m = .ok none m' :=
  (bind_of_ok (log_apply _ m)).trans (attempt_eq_none.2 h)

theorem enterHandler_of_error {e second : Exception} {software : Bool} {m m' : Machine}
    (h : (Attempt.mk e software (m.raising e s)).run = .error (.fault second) m') :
    enterHandler e software s m = .ok (some second) m' :=
  (bind_of_ok (log_apply _ m)).trans (attempt_eq_some.2 h)

theorem shutDown_apply (third : Exception) (m : Machine) :
    shutDown third m = .ok () (m.shut third) := rfl

theorem escalate_settles {e second : Exception} {m m₁ : Machine}
    (h : (Attempt.mk e false m).run = .error (.fault second) m₁) :
    ∃ m', escalate e second s m₁ = .ok () m' ∧ Attempt.Settles s ⟨e, false, m⟩ false m' := by
  by_cases he : e = .doubleFault
  · refine ⟨m₁.shut second, ?_, .shut h ?_⟩
    · rw [escalate, if_pos he, shutDown_apply]
    · rw [Attempt.next?_fault, if_pos he]
  · let double : Attempt := ⟨.doubleFault, false, m₁.backTo s (.escalated second e)⟩
    have hNext : (Attempt.mk e false m).next? s second m₁ = some double := by
      rw [Attempt.next?_fault, if_neg he]
    rw [escalate, if_neg he, bind_of_ok (log_apply _ m₁), restore, bind_of_ok (modifyCpu_apply ..)]
    rcases double.run_cases with ⟨m', hRun⟩ | ⟨third, m₂, hRun⟩
    · exact ⟨m', (bind_of_ok (attempt_eq_none.2 hRun)).trans rfl,
        .replaced h hNext (.entered hRun)⟩
    · exact ⟨m₂.shut third, (bind_of_ok (attempt_eq_some.2 hRun)).trans rfl,
        .replaced h hNext (.shut hRun rfl)⟩

theorem deliverFault_settles (e : Exception) (s : Snapshot) (m : Machine) :
    ∃ entered m', deliverFault e s m = .ok entered m' ∧
      Attempt.Settles s ⟨e, false, m.raising e s⟩ entered m' := by
  rcases (Attempt.mk e false (m.raising e s)).run_cases with ⟨m', hRun⟩ | ⟨second, m₁, hRun⟩
  · exact ⟨true, m', bind_of_ok (enterHandler_of_ok hRun), .entered hRun⟩
  · obtain ⟨m', hEscalate, hSettles⟩ := escalate_settles (s := s) hRun
    exact ⟨false, m', (bind_of_ok (enterHandler_of_error hRun)).trans (bind_of_ok hEscalate),
      hSettles⟩

/-- **A delivery always answers, with what its attempts come to.** -/
theorem deliver_settles (e : Exception) (s : Snapshot) (m : Machine) :
    ∃ entered m', deliver e s m = .ok entered m' ∧
      Attempt.Settles s (.first e s m) entered m' := by
  rw [deliver, Attempt.first]
  cases hSoftware : e.isSoftware with
  | false => exact deliverFault_settles e s m
  | true =>
    rcases (Attempt.mk e true (m.raising e s)).run_cases with ⟨m', hRun⟩ | ⟨second, m₁, hRun⟩
    · exact ⟨true, m', bind_of_ok (enterHandler_of_ok hRun), .entered hRun⟩
    · obtain ⟨entered, m', hFault, hSettles⟩ :=
        deliverFault_settles second s (m₁.backTo s (.refused second e))
      refine ⟨false, m', ?_, .replaced hRun rfl hSettles⟩
      exact (bind_of_ok (enterHandler_of_error hRun)).trans (bind_of_ok hFault)

/-- Every attempt at the delivery is refused: the exception, what its gate raised if an instruction
asked for it, and the double fault. -/
def Undeliverable (e : Exception) (s : Snapshot) (m : Machine) : Prop :=
  ∀ a, Attempt.Reaches s (.first e s m) a → a.Refuses

/-- **An exception enters its own handler, or one in its place from the instruction taken back, or
it kills the processor, and that exactly if every attempt is refused.** In its place comes a double
fault, or what the gate of a software exception raised. -/
theorem deliver_outcome (e : Exception) (s : Snapshot) {m : Machine} (hAlive : m.cpu.dead = false) :
    ∃ entered m', deliver e s m = .ok entered m' ∧
      (match entered, m'.cpu.dead with
        | true, false =>
          interrupt e.vector e.errorCode e.isSoftware (m.raising e s) = .ok () m'
        | false, false => ∃ e' m₁,
          (e' = .doubleFault ∨ e.isSoftware = true ∧ e'.IsRefusal ∧ ∃ m₂,
            interrupt e.vector e.errorCode true (m.raising e s) = .error (.fault e') m₂) ∧
          m₁.cpu = m.cpu.restore s ∧ interrupt e'.vector e'.errorCode false m₁ = .ok () m' ∧
          PushesFrame [m.cpu.flagsImage, s.cs.toUInt32, s.eip] m₁ m'
        | false, true => Undeliverable e s m
        | true, true => False) ∧
      (m'.cpu.dead = true ↔ Undeliverable e s m) := by
  obtain ⟨entered, m', hDeliver, hSettles⟩ := deliver_settles e s m
  have hDead : m'.cpu.dead = true ↔ Undeliverable e s m := hSettles.dead_iff hAlive
  refine ⟨entered, m', hDeliver, ?_, hDead⟩
  cases hEnd : m'.cpu.dead with
  | true =>
    obtain rfl := hSettles.entered_eq hAlive hEnd
    exact hDead.1 hEnd
  | false =>
    rcases hSettles.run_eq hEnd with ⟨rfl, hRun⟩ | ⟨rfl, a, hNext, hRun⟩
    · exact hRun
    · obtain ⟨hSoftware, hCpu, hException⟩ := Attempt.replacement_eq hNext
      have hInterrupt : interrupt a.exception.vector a.exception.errorCode false a.machine =
          .ok () m' := by
        rw [← hSoftware]
        exact hRun
      have hFrame := pushesFrame_interrupt hInterrupt
      rw [hCpu] at hFrame
      refine ⟨a.exception, a.machine, ?_, hCpu, hInterrupt, hFrame⟩
      rcases hException with hDouble | ⟨hAsked, m₂, hRun⟩
      · exact .inl hDouble
      · have hGated : e.isSoftware = true := hAsked
        obtain ⟨o, e', hSame, hRefused⟩ := refused_of_error hRun
        cases hSame
        refine .inr ⟨hGated, hRefused.isRefusal, m₂, ?_⟩
        rw [← hGated]
        exact hRun

/-- Ring 3 code, with a gate for INT3 that only ring 0 may pass, and one for what it raises. -/
def guardedMachine : Machine :=
  (tableMachine .i80386 (List.replicate 24 0 ++ gateTo 0x700 ++ List.replicate 72 0 ++
    gateTo 0x600)).withCpu fun c =>
      { c with regs := { c.regs with selectors := c.regs.selectors.set .cs 3 } }

theorem deliver_outcome_guarded :
    guardedMachine.cpu.dead = false ∧
      ∃ m', deliver .breakpoint guardedMachine.cpu.snapshot guardedMachine = .ok false m' ∧
        m'.cpu.dead = false ∧ m'.cpu.regs.eip = 0x600 ∧
        ∃ (e' : Exception) (m₁ : Machine),
          m₁.cpu = guardedMachine.cpu.restore guardedMachine.cpu.snapshot ∧
          interrupt e'.vector e'.errorCode false m₁ = .ok () m' := by
  have hEnd : (ending? (deliver .breakpoint guardedMachine.cpu.snapshot) guardedMachine).map
      (fun r => (r.1, r.2.cpu.dead, r.2.cpu.regs.eip)) = some (false, false, 0x600) := by
    decide +kernel
  have hAlive : guardedMachine.cpu.dead = false := rfl
  obtain ⟨entered, m', hDeliver, hOutcome, -⟩ :=
    deliver_outcome .breakpoint guardedMachine.cpu.snapshot hAlive
  rw [ending?_eq_some.2 hDeliver] at hEnd
  simp only [Option.map_some, Option.some.injEq, Prod.mk.injEq] at hEnd
  obtain ⟨rfl, hEndAlive, hEip⟩ := hEnd
  rw [hEndAlive] at hOutcome
  obtain ⟨e', m₁, -, hCpu, hEnter, -⟩ := hOutcome
  exact ⟨hAlive, m', hDeliver, hEndAlive, hEip, e', m₁, hCpu, hEnter⟩

end Exec

end X86
