import X86.Proofs.Machine.Halting
import X86.Proofs.Machine.Shutdown

/-!
# Acceptance of interrupt requests

A step looks at the pending lines last, with the processor that its instruction has left. Whatever
came before, the line that it takes is the lowest one, and the processor had interrupts unmasked and
not held off.

* `Exec.TakesLine`: the step takes the line.
* `Exec.exists_takesLine_iff`: **a step takes a line exactly if one is pending and interrupts are
  accepted.**
* `Exec.HoldsOff`: the instruction at hand holds interrupts off until another one has completed.
* `Exec.Waits`: the wait that an HLT begins.
* `Exec.Unmasks`, `Exec.NextMasked`: runs in which no instruction sets the interrupt flag.
* `Exec.EntersOver`: the handler starts over a frame.
* `Exec.accepted_of_takesLine`: **what a step that takes a line has in common with all others.**
-/

namespace X86

namespace Exec

variable {m m₁ m₂ m' : Machine} {n : Line} {i : Instruction}

/-! ### Taking a line -/

/-- The step from `m` takes the line. `m₁` is the machine after its instruction, or `m` itself if the
processor waits. -/
structure TakesLine (m m₁ : Machine) (n : Line) (m' : Machine) : Prop where
  executes : Executes m m₁
  step : Exec.step m = .ok () m'
  pending : (ticked m₁).irq.isPending n = true
  taken : m'.irq.isPending n = false

/-- The vector of the line, on this machine. -/
def vectorOf (m : Machine) (n : Line) : UInt8 := n.vector m.masterBase m.slaveBase

/-- A step that takes a line takes the lowest one, and serves its vector. -/
theorem serves_of_takesLine (h : TakesLine m m₁ n m') :
    m₁.cpu.acceptsInterrupt = true ∧ (ticked m₁).irq.lowest? = some n ∧
      m'.irq = (ticked m₁).irq.lower n ∧
      serveVector (vectorOf m₁ n) (woken (ticked m₁)) = .ok () m' := by
  have hService := serviceLines_of_step h.executes h.step
  rcases serviceLines_cases (ticked m₁) with ⟨-, hNone⟩ |
    ⟨hServes, k, m₂, hLowest, -, hSome, hServe, -⟩
  · cases hService.symm.trans hNone
    cases h.pending.symm.trans h.taken
  · cases hService.symm.trans hSome
    obtain ⟨hAny, hAccepts⟩ := Bool.and_eq_true_iff.1 hServes
    have hLines : m'.irq = (ticked m₁).irq.lower k := by
      rw [((sure_serveVector _).changes.of_ok hServe).irq_eq]
      exact congrArg Prod.snd (IrqLines.takeLowest_eq hAny hLowest)
    have hSame : n = k := by
      have hTaken := h.taken
      rw [hLines, IrqLines.isPending_lower, h.pending] at hTaken
      simpa using hTaken
    subst hSame
    rw [cpu_ticked] at hAccepts
    rw [(bases_ticked m₁).1, (bases_ticked m₁).2] at hServe
    exact ⟨hAccepts, hLowest, hLines, hServe⟩

/-- **A step takes a line exactly if one is pending and interrupts are accepted.** -/
theorem exists_takesLine_iff (hExecutes : Executes m m₁) (hStep : step m = .ok () m') :
    (∃ n, TakesLine m m₁ n m') ↔ (ticked m₁).irq.any = true ∧ m₁.cpu.acceptsInterrupt = true := by
  constructor
  · rintro ⟨n, h⟩
    refine ⟨eq_true_of_ne_false fun hNone => ?_, (serves_of_takesLine h).1⟩
    cases h.pending.symm.trans (IrqLines.isPending_of_any hNone n)
  · rintro ⟨hAny, hAccepts⟩
    have hService := serviceLines_of_step hExecutes hStep
    rcases serviceLines_cases (ticked m₁) with ⟨hRefuses, -⟩ |
      ⟨-, n, m₂, -, hPending, hSome, -, hTaken⟩
    · rw [cpu_ticked, hAny, hAccepts] at hRefuses
      cases hRefuses
    · cases hService.symm.trans hSome
      exact ⟨n, hExecutes, hStep, hPending, hTaken⟩

theorem ticked_of_refused (hExecutes : Executes m m₁) (hRefuses : m₁.cpu.acceptsInterrupt = false)
    (hStep : step m = .ok () m') : m' = ticked m₁ := by
  have hService := serviceLines_of_step hExecutes hStep
  rw [serviceLines_of_refused (by rw [cpu_ticked, hRefuses])] at hService
  cases hService
  rfl

end Exec

/-! ### Holding interrupts off -/

/-- The instruction loads the stack segment, by a move or from the stack, or it is an STI that finds
interrupts masked. -/
def Instruction.HoldsOff (i : Instruction) (f : Flags) : Prop :=
  (i.operation = .mov ∨ i.operation = .pop) ∧ i.dst = .reg (.seg .ss) ∨
    i.operation = .flag .sti ∧ f.interrupt = false

namespace Exec

variable {m m₁ m₂ m' : Machine} {n : Line} {i : Instruction}

/-- The machine completes an instruction that holds interrupts off. -/
def HoldsOff (m : Machine) : Prop :=
  m.cpu.halted = false ∧ ∃ i m₁ m₂, fetch m = .ok i m₁ ∧ i.HoldsOff m.cpu.regs.flags ∧
    perform i m₁ = .ok () m₂

theorem shadow_of_loadSegmentHeld {v : UInt16} (h : loadSegmentHeld .ss v m = .ok () m') :
    m'.cpu.shadow = true := by
  obtain ⟨_, m₁, -, hHold⟩ := bind_eq_ok.1 h
  rw [if_pos rfl] at hHold
  cases hHold
  rfl

/-- There is no copy between selectors and control or debug registers. -/
theorem movSpecial_ne_ok {s : SegReg} (hDst : i.dst = .reg (.seg s)) :
    movSpecial i m ≠ .ok () m' := by
  intro h
  obtain ⟨c, m₁, -, h⟩ := bind_eq_ok.1 h
  obtain ⟨_, m₂, -, h⟩ := bind_eq_ok.1 h
  obtain ⟨g, m₃, -, h⟩ := bind_eq_ok.1 h
  rw [hDst] at h
  cases h

theorem shadow_of_mov (hDst : i.dst = .reg (.seg .ss)) (h : mov i m = .ok () m') :
    m'.cpu.shadow = true := by
  have hForm : mov i = movSpecial i ∨
      ∃ load : Exec UInt16, mov i = load >>= loadSegmentHeld .ss := by
    rw [mov, hDst]
    split
    case h_1 hEq | h_2 hEq => cases hEq
    case h_3 | h_4 => exact .inl rfl
    case h_5 s hEq _ _ =>
      cases hEq
      refine .inr ⟨do return (← readPlace (← place i i.src) .word).toUInt16, ?_⟩
      simp only [bind_assoc, pure_bind]
    case h_6 hPlain => exact (hPlain _ rfl).elim
    case h_7 hPlain _ _ _ => exact (hPlain _ rfl).elim
  rcases hForm with hSpecial | ⟨load, hLoad⟩
  · rw [hSpecial] at h
    exact absurd h (movSpecial_ne_ok hDst)
  · rw [hLoad] at h
    obtain ⟨v, m₁, -, h⟩ := bind_eq_ok.1 h
    exact shadow_of_loadSegmentHeld h

theorem shadow_of_popOperand (hDst : i.dst = .reg (.seg .ss)) (h : popOperand i m = .ok () m') :
    m'.cpu.shadow = true := by
  obtain ⟨v, m₁, -, h⟩ := bind_eq_ok.1 h
  rw [hDst] at h
  exact shadow_of_loadSegmentHeld h

theorem shadow_of_sti (hMasked : m.cpu.regs.flags.interrupt = false)
    (h : flag .sti m = .ok () m') : m'.cpu.shadow = true := by
  rw [flag, bind_of_ok (cpu_apply m)] at h
  obtain ⟨_, m₁, -, h⟩ := bind_eq_ok.1 h
  rw [if_pos ⟨rfl, by simp [hMasked]⟩] at h
  cases h
  rfl

/-- An instruction that holds interrupts off does not repeat. -/
theorem shadow_of_perform (hFetch : fetch m = .ok i m₁) (hHolds : i.HoldsOff m.cpu.regs.flags)
    (h : perform i m₁ = .ok () m₂) : m₂.cpu.shadow = true := by
  obtain ⟨-, rfl, rfl⟩ := fetch_eq_ok.1 hFetch
  have hString : (m.cpu.decodeNext m.bus).operation.isString = false := by
    rcases hHolds with ⟨hop | hop, -⟩ | ⟨hop, -⟩ <;> rw [hop] <;> rfl
  rw [Cpu.decodeNext, perform_of_not_string hString, ← Cpu.decodeNext, once] at h
  rcases hHolds with ⟨hop | hop, hDst⟩ | ⟨hop, hMasked⟩
  · rw [hop] at h
    exact shadow_of_mov hDst h
  · rw [hop] at h
    exact shadow_of_popOperand hDst h
  · rw [hop] at h
    exact shadow_of_sti (m := fetched m _) hMasked h

theorem not_mem_changes_of_holdsOff {f : Flags} (h : i.HoldsOff f) :
    ChangeKind.halt ∉ i.changes ∧ ChangeKind.service ∉ i.changes := by
  rw [Instruction.changes]
  rcases h with ⟨hop | hop, hDst⟩ | ⟨hop, -⟩
  · simp [hop, hDst, Operand.kinds]
  · simp [hop, hDst, Operand.kinds]
  · simp [hop]

/-- Neither the instruction nor the single step trap after it ends the hold, or begins a wait. -/
theorem held_of_holdsOff (h : HoldsOff m) (hExecutes : Executes m m₁) :
    m₁.cpu.shadow = true ∧ m₁.cpu.halted = false := by
  obtain ⟨hAwake, i, f, m₂, hFetch, hHolds, hPerform⟩ := h
  rcases hExecutes with ⟨hWaits, -⟩ | ⟨-, hNext⟩
  · cases hWaits.symm.trans hAwake
  · obtain ⟨i', f', m₃, hFetch', hEnd⟩ := executeNext_eq_ok.1 hNext
    cases hFetch.symm.trans hFetch'
    rcases hEnd with ⟨hPerform', hStep⟩ | ⟨e, hError, -⟩
    · cases hPerform.symm.trans hPerform'
      have hEvolves : Evolves Delivers m₂ m₁ := by
        split at hStep
        · exact sure_singleStep.changes.of_ok hStep
        · cases hStep
          exact .refl _
      obtain ⟨hHalt, hService⟩ := not_mem_changes_of_holdsOff hHolds
      have hStill : m₂.cpu.halted = f.cpu.halted :=
        ((changes_fetched hFetch).of_ok hPerform).halted_eq_of_unserved hHalt hService
      have hFetched : f.cpu.halted = m.cpu.halted := by
        obtain ⟨-, -, rfl⟩ := fetch_eq_ok.1 hFetch
        rfl
      rw [hEvolves.shadow_eq_of_unserved not_delivers_hold not_delivers_service,
        hEvolves.halted_eq_of_unserved not_delivers_halt not_delivers_service, hStill, hFetched]
      exact ⟨shadow_of_perform hFetch hHolds hPerform, hAwake⟩
    · cases hPerform.symm.trans hError

/-- The step that holds interrupts off takes no line, and the next one begins with an instruction. -/
theorem step_of_holdsOff (h : HoldsOff m) (hStep : step m = .ok () m') :
    ∃ m₁, Executes m m₁ ∧ m' = ticked m₁ ∧ m'.cpu.halted = false := by
  obtain ⟨m₁, -, hExecutes, -, -⟩ := step_eq_ok.1 hStep
  obtain ⟨hShadow, hAwake⟩ := held_of_holdsOff h hExecutes
  have hRefuses : m₁.cpu.acceptsInterrupt = false := by
    rw [Cpu.acceptsInterrupt, hShadow, Bool.not_true, Bool.and_false]
  have hTicked := ticked_of_refused hExecutes hRefuses hStep
  refine ⟨m₁, hExecutes, hTicked, ?_⟩
  rw [hTicked, cpu_ticked, hAwake]

/-! ### Waiting -/

/-- The machine waits after an HLT at `h` that no trap followed, while lines come and go. -/
inductive Waits (h : Machine) : Machine → Prop where
  | halt {m : Machine} (hAwake : h.cpu.halted = false) (hTrap : h.cpu.regs.flags.trap = false)
    (hHlt : (h.cpu.decodeNext h.bus).operation = .hlt) (hNext : executeNext h = .ok () m)
    (hHalted : m.cpu.halted = true) : Waits h m
  | serve {m m' : Machine} (hWaits : Waits h m) (hService : serviceLines (ticked m) = .ok () m')
    (hHalted : m'.cpu.halted = true) : Waits h m'
  | lines {m : Machine} (hWaits : Waits h m) (q : IrqLines) : Waits h { m with irq := q }

theorem regs_of_hlt (h : hlt m = .ok () m') : m'.cpu.regs = m.cpu.regs := by
  rw [hlt, bind_of_ok (get_apply m)] at h
  obtain ⟨_, m₁, hCheck, h⟩ := bind_eq_ok.1 h
  cases (Reads.check _).eq_of_ok hCheck
  split at h
  all_goals
    cases h
    rfl

/-- Serving a line ends a wait. -/
theorem awake_of_serveVector {vector : UInt8} (h : serveVector vector (woken m) = .ok () m') :
    m'.cpu.halted = false :=
  ((sure_serveVector vector).changes.of_ok h).halted_eq_of_unserved not_delivers_halt
    not_delivers_service

/-- **What waits is where the HLT left it: at the instruction after the HLT.** -/
theorem Waits.place_eq {h : Machine} (hWaits : Waits h m) :
    m.cpu.regs.selector .cs = h.cpu.regs.selector .cs ∧
      m.cpu.regs.eip = (h.cpu.begin (h.cpu.decodeNext h.bus)).regs.eip := by
  induction hWaits with
  | @halt m hAwake hTrap hHlt hNext hHalted =>
    obtain ⟨i, f, m₂, hFetch, hEnd⟩ := executeNext_eq_ok.1 hNext
    obtain ⟨-, rfl, rfl⟩ := fetch_eq_ok.1 hFetch
    rw [perform_of_fetch hFetch hHlt, hTrap] at hEnd
    rcases hEnd with ⟨hOk, hStep⟩ | ⟨e, hError, hRaise⟩
    · cases hStep
      rw [regs_of_hlt hOk]
      exact ⟨rfl, rfl⟩
    · -- a refused HLT begins no wait
      obtain rfl : m₂ = fetched h (h.cpu.decodeNext h.bus) := by
        rcases hlt_cases (fetched h (h.cpu.decodeNext h.bus)) with ⟨e, hRefused⟩ |
          ⟨-, m₃, hDies, -⟩ | ⟨-, hHalts⟩
        · cases hRefused.symm.trans hError
          rfl
        · cases hDies.symm.trans hError
        · cases hHalts.symm.trans hError
      have hStill : m.cpu.halted = (fetched h (h.cpu.decodeNext h.bus)).cpu.halted :=
        ((sure_raise _ _ _).changes.of_ok hRaise).halted_eq_of_unserved not_delivers_halt
          not_delivers_service
      cases hHalted.symm.trans (hStill.trans hAwake)
  | @serve m m' _ hService hHalted ih =>
    rcases serviceLines_cases (ticked m) with ⟨-, hNone⟩ | ⟨-, n, m₂, -, -, hSome, hServe, -⟩
    · cases hService.symm.trans hNone
      rw [cpu_ticked]
      exact ih
    · cases hService.symm.trans hSome
      cases hHalted.symm.trans (awake_of_serveVector hServe)
  | lines _ q ih => exact ih

/-! ### Frames -/

end Exec

/-- The width of the values in the frame of a handler. -/
def Machine.frameWidth (m : Machine) (vector : UInt8) : Width :=
  if m.cpu.protectedMode then
    match m.cpu.openGate m.bus vector false with
    | .ok g => g.width
    | .error _ => .word
  else .word

namespace Exec

variable {m m₁ m₂ m' : Machine} {n : Line} {i : Instruction}

/-- A handler starts over a frame on the stack of `m`: the values were pushed, and what followed the
pushes left memory and stack alone. -/
def EntersOver (w : Width) (frame : List UInt32) (m m' : Machine) : Prop :=
  ∃ start last, m.cpu.SameStack start.cpu ∧ pushList w frame start = .ok () last ∧
    last.cpu.SameStack m'.cpu ∧ m'.bus = last.bus

theorem entersOver_of_interrupt {vector : UInt8} (h : interrupt vector none false m = .ok () m') :
    EntersOver (m.frameWidth vector) m.cpu.returnFrame m m' := by
  rw [Machine.frameWidth]
  cases hp : m.cpu.protectedMode with
  | false =>
    rw [interrupt_of_real hp, interruptReal_eq] at h
    split at h
    · cases h
    · obtain ⟨_, m₂, hPush, hEnter⟩ := bind_eq_ok.1 h
      cases (enterVector_apply _ m₂).symm.trans hEnter
      exact ⟨m, m₂, ⟨rfl, rfl⟩, hPush, ⟨rfl, rfl⟩, rfl⟩
  | true =>
    rw [interrupt_of_protected hp, interruptProtected_eq_ok hp] at h
    obtain ⟨g, entry, d, m₂, hGate, -, hPush, rfl⟩ := h
    rw [Cpu.gateFrame, Option.map_none, Option.toList_none, List.append_nil] at hPush
    rw [hGate]
    refine ⟨_, m₂, ?_, hPush, ⟨rfl, rfl⟩, rfl⟩
    rw [cpu_arrived]
    exact ⟨rfl, rfl⟩

/-! ### Masked runs -/

/-- The instruction at hand sets the interrupt flag. -/
def Unmasks (m : Machine) : Prop :=
  m.cpu.halted = false ∧ m.cpu.regs.flags.interrupt = false ∧
    ∃ i m₁, fetch m = .ok i m₁ ∧ (after (perform i) m₁).cpu.regs.flags.interrupt = true

/-- As `Machine.Next`, but no instruction sets the interrupt flag. -/
inductive NextMasked : Machine → Machine → Prop where
  | step {m m' : Machine} (h : step m = .ok () m') (hMasked : ¬ Unmasks m) : NextMasked m m'
  | raise (m : Machine) (n : Line) : NextMasked m { m with irq := m.irq.raise n }
  | lower (m : Machine) (n : Line) : NextMasked m { m with irq := m.irq.lower n }

theorem masked_of_executes (hMasked : m.cpu.regs.flags.interrupt = false) (hNot : ¬ Unmasks m)
    (h : Executes m m₁) : m₁.cpu.regs.flags.interrupt = false := by
  rcases h with ⟨-, rfl⟩ | ⟨hAwake, hNext⟩
  · exact hMasked
  · obtain ⟨i, f, m₂, hFetch, hEnd⟩ := executeNext_eq_ok.1 hNext
    have hPerformed : (after (perform i) f).cpu.regs.flags.interrupt = false :=
      eq_false_of_ne_true fun hSet => hNot ⟨hAwake, hMasked, i, f, hFetch, hSet⟩
    rcases hEnd with ⟨hOk, hStep⟩ | ⟨e, hError, hRaise⟩
    · rw [after_of_ok hOk] at hPerformed
      split at hStep
      · exact masked_of_singleStep hStep hPerformed
      · cases hStep
        exact hPerformed
    · rw [after_of_error hError] at hPerformed
      exact masked_of_raise hRaise hPerformed

theorem NextMasked.masked (h : NextMasked m m') (hMasked : m.cpu.regs.flags.interrupt = false) :
    m'.cpu.regs.flags.interrupt = false := by
  cases h with
  | raise n | lower n => exact hMasked
  | step hStep hNot =>
    obtain ⟨m₁, -, hExecutes, -, -⟩ := step_eq_ok.1 hStep
    have hStill := masked_of_executes hMasked hNot hExecutes
    have hRefuses : m₁.cpu.acceptsInterrupt = false := by
      rw [Cpu.acceptsInterrupt, hStill, Bool.false_and]
    rw [ticked_of_refused hExecutes hRefuses hStep, cpu_ticked]
    exact hStill

/-- **Where no instruction sets the interrupt flag, masked interrupts stay masked.** -/
theorem masked_of_run (h : Relation.ReflTransGen NextMasked m m')
    (hMasked : m.cpu.regs.flags.interrupt = false) : m'.cpu.regs.flags.interrupt = false := by
  induction h with
  | refl => exact hMasked
  | tail _ hLast ih => exact hLast.masked ih

/-- In real mode every handler starts with interrupts masked. -/
theorem masked_of_real {vector : UInt8} {errorCode : Option UInt16} {software : Bool}
    (hp : m.cpu.protectedMode = false)
    (h : interrupt vector errorCode software m = .ok () m') :
    m'.cpu.regs.flags.interrupt = false := by
  rw [interrupt_of_real hp, interruptReal_eq] at h
  split at h
  · cases h
  · obtain ⟨_, m₁, -, hEnter⟩ := bind_eq_ok.1 h
    cases (enterVector_apply _ m₁).symm.trans hEnter
    rfl

theorem masked_of_attempt {a : Attempt} (hp : a.machine.cpu.protectedMode = false)
    (h : a.run = .ok () m') : m'.cpu.regs.flags.interrupt = false :=
  masked_of_real hp h

/-- Where the handler of a vector can be entered, serving the vector enters it. -/
theorem eq_of_serveVector {vector : UInt8} (h : serveVector vector m = .ok () m')
    (hEnter : interrupt vector none false m = .ok () m₁) : m₁ = m' := by
  rw [serveVector, bind_of_ok (cpu_apply m), bind_of_ok (attempt_eq_none.2 hEnter)] at h
  cases h
  rfl

/-- In real mode the processor is dead or has interrupts masked once a vector has been served. -/
theorem masked_of_serveVector {vector : UInt8} (hp : m.cpu.protectedMode = false)
    (h : serveVector vector m = .ok () m')
    (hServed : interrupt vector none false m = .ok () m' ∨ m'.cpu.dead = false) :
    m'.cpu.regs.flags.interrupt = false := by
  rcases hServed with hEnter | hAlive
  · exact masked_of_real hp hEnter
  cases hEnter : interrupt vector none false m with
  | ok _ m₁ =>
    obtain rfl := eq_of_serveVector h hEnter
    exact masked_of_real hp hEnter
  | error stop m₁ =>
    obtain ⟨o, e, rfl, hRefused⟩ := refused_of_error hEnter
    rw [serveVector, bind_of_ok (cpu_apply m), bind_of_ok (attempt_eq_some.2 hEnter)] at h
    obtain ⟨_, _, hRestore, h⟩ := bind_eq_ok.1 h
    cases hRestore
    obtain ⟨entered, m₂, hDeliver, hEnd⟩ := bind_eq_ok.1 h
    cases hEnd
    obtain ⟨entered', m₂, hDeliver', hSettles⟩ :=
      deliver_settles e m.cpu.snapshot (m₁.withCpu (·.restore m.cpu.snapshot))
    cases hDeliver.symm.trans hDeliver'
    -- the attempts start in real mode, and one of them was not refused
    have hReal : (Attempt.first e m.cpu.snapshot
        (m₁.withCpu (·.restore m.cpu.snapshot))).machine.cpu.protectedMode = false := by
      change (m₁.cpu.restore m.cpu.snapshot).protectedMode = false
      rw [hRefused.restore_eq, Cpu.protectedMode_restore]
      exact hp
    rcases hSettles.run_eq hAlive with ⟨-, hRun⟩ | ⟨-, b, hb, hRun⟩
    · exact masked_of_attempt hReal hRun
    · refine masked_of_attempt ?_ hRun
      rw [(Attempt.replacement_eq hb).2.1, Cpu.protectedMode_restore]
      exact hReal

/-! ### What all steps that take a line have in common -/

theorem cpu_woken (m : Machine) : (woken (ticked m)).cpu = { m.cpu with halted := false } := by
  rw [woken, ← cpu_ticked m]
  rfl

/-- The machine that serves a line has the stack, the frame and the gates of the one that looked at
the lines. -/
theorem entersOver_of_woken {vector : UInt8}
    (h : interrupt vector none false (woken (ticked m)) = .ok () m') :
    EntersOver (m.frameWidth vector) m.cpu.returnFrame m m' := by
  obtain ⟨start, last, hStack, hPush, hRest⟩ := entersOver_of_interrupt h
  have hCpu := cpu_woken m
  have hWidth : (woken (ticked m)).frameWidth vector = m.frameWidth vector := by
    have hBus : (woken (ticked m)).bus = m.bus := bus_ticked m
    rw [Machine.frameWidth, hCpu, hBus]
    rfl
  rw [hWidth, hCpu] at hPush
  rw [hCpu] at hStack
  exact ⟨start, last, ⟨hStack.esp, hStack.cache⟩, hPush, hRest⟩

/-- What a step that takes a line looks like. -/
structure Accepted (m m₁ : Machine) (n : Line) (m' : Machine) : Prop where
  unmasked : m₁.cpu.regs.flags.interrupt = true
  unheld : m₁.cpu.shadow = false
  /-- Its instruction does not hold interrupts off. -/
  instruction : ¬ HoldsOff m
  /-- Nor does it follow one that does without an instruction in between, whatever has happened to
  the lines. -/
  between : ∀ m₀ m₂ q, HoldsOff m₀ → Exec.step m₀ = .ok () m₂ → m = { m₂ with irq := q } →
    executeNext m = .ok () m₁
  lowest : ∀ k < n, (ticked m₁).irq.isPending k = false
  lines : ∀ k, m'.irq.isPending k = ((ticked m₁).irq.isPending k && decide (k ≠ n))
  /-- The handler starts over the flags, the code segment and the instruction pointer. -/
  frame : ∀ entered, interrupt (vectorOf m₁ n) none false (woken (ticked m₁)) = .ok () entered →
    entered = m' ∧ EntersOver (m₁.frameWidth (vectorOf m₁ n)) m₁.cpu.returnFrame m₁ m'
  /-- After an HLT that is the place of the next instruction. -/
  waited : ∀ h, Waits h m₁ → m₁.cpu.regs.selector .cs = h.cpu.regs.selector .cs ∧
    m₁.cpu.regs.eip = (h.cpu.begin (h.cpu.decodeNext h.bus)).regs.eip
  /-- In real mode no further line is taken until an instruction sets the interrupt flag, unless
  serving this one has killed the processor. -/
  real : m₁.cpu.protectedMode = false →
    interrupt (vectorOf m₁ n) none false (woken (ticked m₁)) = .ok () m' ∨ m'.cpu.dead = false →
    ∀ m₂ m₃ k m₄, Relation.ReflTransGen NextMasked m' m₂ → TakesLine m₂ m₃ k m₄ → Unmasks m₂

/-- **A step takes a line only if its instruction leaves interrupts unmasked and not held off; it
takes the lowest one, and the handler returns to the next instruction.** -/
theorem accepted_of_takesLine (h : TakesLine m m₁ n m') : Accepted m m₁ n m' := by
  obtain ⟨hAccepts, hLowest, hLines, hServe⟩ := serves_of_takesLine h
  obtain ⟨hUnmasked, hUnheld⟩ := Bool.and_eq_true_iff.1 hAccepts
  refine
    { unmasked := hUnmasked
      unheld := by simpa using hUnheld
      instruction := fun hHolds => ?_
      between := fun m₀ m₂ q hHolds hStep hm => ?_
      lowest := fun k => IrqLines.isPending_of_lt_lowest hLowest
      lines := fun k => ?_
      frame := fun entered hEnter => ?_
      waited := fun _ => Waits.place_eq
      real := fun hp hServed m₂ m₃ k m₄ hRun hTakes => ?_ }
  · rw [(held_of_holdsOff hHolds h.executes).1] at hUnheld
    cases hUnheld
  · obtain ⟨-, -, -, hAwake⟩ := step_of_holdsOff hHolds hStep
    subst hm
    rcases h.executes with ⟨hWaits, -⟩ | ⟨-, hNext⟩
    · cases hWaits.symm.trans hAwake
    · exact hNext
  · rw [hLines, IrqLines.isPending_lower]
  · obtain rfl := eq_of_serveVector hServe hEnter
    exact ⟨rfl, entersOver_of_woken hEnter⟩
  · have hWoken : (woken (ticked m₁)).cpu.protectedMode = false := by
      rw [cpu_woken]
      exact hp
    have hMasked := masked_of_run hRun (masked_of_serveVector hWoken hServe hServed)
    refine Classical.byContradiction fun hNot => ?_
    have hStill := masked_of_executes hMasked hNot hTakes.executes
    have hAccepts := (serves_of_takesLine hTakes).1
    rw [Cpu.acceptsInterrupt, hStill] at hAccepts
    cases hAccepts

/-! ### Narrow frames -/

/-- A step that takes a line, where its parts can be computed. -/
theorem takesLine_after (hAwake : m.cpu.halted = false)
    (hNext : (ending? executeNext m).isSome = true) (hStep : (ending? step m).isSome = true)
    (hPending : (ticked (after executeNext m)).irq.isPending n = true)
    (hTaken : (after step m).irq.isPending n = false) :
    TakesLine m (after executeNext m) n (after step m) :=
  ⟨.inr ⟨hAwake, ok_after hNext⟩, ok_after hStep, hPending, hTaken⟩

theorem interrupt_of_takesLine (h : TakesLine m m₁ n m')
    (hEnter : (ending? (interrupt (vectorOf m₁ n) none false) (woken (ticked m₁))).isSome = true) :
    interrupt (vectorOf m₁ n) none false (woken (ticked m₁)) = .ok () m' := by
  have hOk := ok_after hEnter
  rw [hOk, eq_of_serveVector (serves_of_takesLine h).2.2.2 hOk]

end Exec

/-- A machine that runs an opcode in 32-bit code, at an address of the graphics window. Line 1 is
pending. Its gate has 16 bits, and so has that of the debug trap, which leaves interrupts alone. -/
def narrowGates (opcode : UInt8) (f : Flags) : Machine :=
  let gates := List.replicate 8 0 ++ [0, 3, 8, 0, 0, 0x87, 0, 0] ++ List.replicate 56 0 ++
    gateTo 0x700
  let m := (tableMachine .i80386 gates).withCpu fun c =>
    { c with
      regs := { c.regs with
        flags := f
        eip := Bus.windowStart
        gprs := { c.regs.gprs with esp := 0x40 } }
      caches := c.caches.set .cs { limit := 0xFFFFFFFF, access := 0x9B, big := true } }
  { m with bus := { m.bus with window := some ⟨fun _ _ => opcode⟩ }, irq := ⟨2⟩ }

/-- The offset that a handler returns to: the value on top of the stack. -/
def Machine.returnOffset (m : Machine) (w : Width) : UInt32 :=
  m.cpu.loadBytes m.bus (.of .ss m.cpu.stackPointer m.cpu.stack32) w

namespace Exec

/-- The offset in a narrow frame need not be that of the next instruction: in 32-bit code the frame
has the low half of it only, and after an HLT that a debug trap has followed it is that of the
handler of the trap. -/
theorem returnOffset_narrow :
    (∃ m₁ m', TakesLine (narrowGates 0x90 { interrupt := true }) m₁ 1 m' ∧
      interrupt (vectorOf m₁ 1) none false (woken (ticked m₁)) = .ok () m' ∧
      m₁.cpu.regs.eip = 0xA0001 ∧
      m'.returnOffset (m₁.frameWidth (vectorOf m₁ 1)) = 0x0001) ∧
    ∃ m₁ m', TakesLine (narrowGates 0xF4 { interrupt := true, trap := true }) m₁ 1 m' ∧
      interrupt (vectorOf m₁ 1) none false (woken (ticked m₁)) = .ok () m' ∧
      m₁.cpu.halted = true ∧ m'.returnOffset (m₁.frameWidth (vectorOf m₁ 1)) = 0x0300 := by
  constructor
  · have hTakes : TakesLine (narrowGates 0x90 { interrupt := true }) _ 1 _ :=
      takesLine_after rfl (by decide +kernel) (by decide +kernel) (by decide +kernel)
        (by decide +kernel)
    exact ⟨_, _, hTakes, interrupt_of_takesLine hTakes (by decide +kernel), by decide +kernel,
      by decide +kernel⟩
  · have hTakes : TakesLine (narrowGates 0xF4 { interrupt := true, trap := true }) _ 1 _ :=
      takesLine_after rfl (by decide +kernel) (by decide +kernel) (by decide +kernel)
        (by decide +kernel)
    exact ⟨_, _, hTakes, interrupt_of_takesLine hTakes (by decide +kernel), by decide +kernel,
      by decide +kernel⟩

/-- An HLT, and line 1 in the same step. -/
theorem accepted_narrow :
    ∃ m₁ m', TakesLine (narrowGates 0xF4 { interrupt := true }) m₁ 1 m' ∧
      Accepted (narrowGates 0xF4 { interrupt := true }) m₁ 1 m' ∧ m₁.cpu.regs.eip = 0xA0001 := by
  have hTakes : TakesLine (narrowGates 0xF4 { interrupt := true }) _ 1 _ :=
    takesLine_after rfl (by decide +kernel) (by decide +kernel) (by decide +kernel)
      (by decide +kernel)
  have hAccepted := accepted_of_takesLine hTakes
  have hWaits : Waits (narrowGates 0xF4 { interrupt := true }) _ :=
    .halt rfl rfl (by decide +kernel) (ok_after (by decide +kernel)) (by decide +kernel)
  refine ⟨_, _, hTakes, hAccepted, ?_⟩
  rw [(hAccepted.waited _ hWaits).2]
  decide +kernel

end Exec

end X86
