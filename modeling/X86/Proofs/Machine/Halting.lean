import X86.Proofs.Machine.Run

/-!
# Waiting for an interrupt

HLT waits only if interrupts are not masked, and kills the processor otherwise, so one would expect
that what waits can be woken. There is one exception: under the trap flag HLT is followed by the
debug trap, whose handler starts with interrupts masked, while the wait goes on.

* `Cpu.Asleep`: the processor waits, and no interrupt will wake it.
* `TrappedHalt`: the step that gets a processor there.
* `asleep_iff_trappedHalt`: **a running machine is asleep exactly if it has been through such a
  step.**
* `trappedHalt_of_real`: in real mode every HLT under the trap flag is such a step.
-/

namespace X86

/-- The processor waits, it is not dead, and it accepts no interrupt. -/
def Cpu.Asleep (c : Cpu) : Prop :=
  c.halted = true ∧ c.dead = false ∧ c.acceptsInterrupt = false

open Exec Machine

/-- The step is an HLT under the trap flag, and the debug trap after it leaves interrupts masked. -/
def TrappedHalt (m m' : Machine) : Prop :=
  m.cpu.halted = false ∧ m.cpu.regs.flags.trap = true ∧ step m = .ok () m' ∧
    ∃ i m₁ m₂ m₃, fetch m = .ok i m₁ ∧ i.operation = .hlt ∧ perform i m₁ = .ok () m₂ ∧
      singleStep m₂ = .ok () m₃ ∧ m₃.cpu.dead = false ∧ m₃.cpu.regs.flags.interrupt = false

namespace Exec

variable {m m₁ m' : Machine}

theorem not_delivers_halt : ¬ Delivers .halt := by simp [Delivers]

theorem not_delivers_hold : ¬ Delivers .hold := by simp [Delivers]

/-! ### HLT -/

/-- The kinds of change that HLT makes. -/
def Halts (k : ChangeKind) : Prop := k = .halt ∨ k = .death

theorem not_mem_kinds {k : ChangeKind} (hk : Halts k) (o : Operand) : k ∉ o.kinds := by
  intro hMem
  obtain rfl | rfl := hk <;> simpa using Operand.mem_kinds hMem

/-- No other instruction begins a wait or kills the processor. -/
theorem not_mem_changes {k : ChangeKind} (hk : Halts k) {i : Instruction}
    (h : i.operation ≠ .hlt) : k ∉ i.changes := by
  have hKinds := not_mem_kinds hk
  obtain rfl | rfl := hk
  all_goals
    rw [Instruction.changes]
    cases hop : i.operation with
    | hlt => exact absurd hop h
    | mov | pop => simp [hKinds]
    | loadFar s => cases s <;> simp [ChangeKind.ofSegment]
    | flag op => cases op <;> simp
    | _ => simp

theorem perform_hlt {m : Features} {c : Code} (h : (decode m c).operation = .hlt) :
    perform (decode m c) = hlt := by
  rw [perform_of_not_string (by rw [h]; rfl), once, h]

/-- HLT is refused, or it kills the processor, or it waits with interrupts unmasked. -/
theorem hlt_cases (m : Machine) :
    (∃ e, hlt m = .error (.fault e) m) ∨
      (m.cpu.regs.flags.interrupt = false ∧
          ∃ m', hlt m = .ok () m' ∧ m'.cpu.dead = true ∧ m'.devices = m.devices) ∨
        m.cpu.regs.flags.interrupt = true ∧
          hlt m = .ok () (m.withCpu fun c => { c with halted := true }) := by
  rw [hlt, bind_of_ok (get_apply m)]
  cases hCheck : m.cpu.requirePrivilege with
  | error e => exact .inl ⟨e, rfl⟩
  | ok _ =>
    refine .inr ?_
    cases hIf : m.cpu.regs.flags.interrupt with
    | false => exact .inl ⟨rfl, _, rfl, rfl, rfl⟩
    | true => exact .inr ⟨rfl, rfl⟩

/-! ### The instruction that puts a processor to sleep -/

theorem perform_of_fetch {i : Instruction} (hFetch : fetch m = .ok i m₁)
    (hop : i.operation = .hlt) : perform i m₁ = hlt m₁ := by
  obtain ⟨-, rfl, -⟩ := fetch_eq_ok.1 hFetch
  exact congrFun (perform_hlt hop) m₁

/-- No other instruction begins a wait, nor does what follows it. -/
theorem halted_of_ne_hlt (hm : m.Calm) {i : Instruction} (hFetch : fetch m = .ok i m₁)
    (hop : i.operation ≠ .hlt) (h : executeNext m = .ok () m') :
    m'.cpu.halted = m.cpu.halted := by
  obtain ⟨i', m₂, m₃, hFetch', hPerform, hEnd⟩ := evolves_executeNext h
  cases hFetch.symm.trans hFetch'
  obtain ⟨-, -, rfl⟩ := fetch_eq_ok.1 hFetch
  have hCalm : m₃.Calm := hm.of_devices_eq hPerform.devices_eq
  calc m'.cpu.halted = m₃.cpu.halted := hEnd.halted_eq not_delivers_halt hCalm
    _ = (fetched m i).cpu.halted := hPerform.halted_eq (not_mem_changes (.inl rfl) hop) hm

/-- An HLT that goes through waits with interrupts unmasked, until the debug trap. -/
theorem executeNext_hlt (hm : m.Calm) {i : Instruction} (hFetch : fetch m = .ok i m₁)
    (hop : i.operation = .hlt) (h : executeNext m = .ok () m') :
    m'.cpu.halted = m.cpu.halted ∨ m'.cpu.dead = true ∨
      ∃ m₂, perform i m₁ = .ok () m₂ ∧ m₂.Calm ∧ m₂.cpu.shadow = false ∧
        m₂.cpu.regs.flags.interrupt = true ∧
        (if m.cpu.regs.flags.trap then singleStep else pure ()) m₂ = .ok () m' := by
  obtain ⟨i', m₁', m₂, hFetch', hEnd⟩ := executeNext_eq_ok.1 h
  cases hFetch.symm.trans hFetch'
  rw [perform_of_fetch hFetch hop] at hEnd ⊢
  obtain ⟨-, -, rfl⟩ := fetch_eq_ok.1 hFetch
  rcases hlt_cases (fetched m i) with ⟨e, hHlt⟩ |
      ⟨-, m₃, hHlt, hDead, hDevices⟩ | ⟨hIf, hHlt⟩
  · -- the refused HLT is taken back
    rw [hHlt] at hEnd
    rcases hEnd with ⟨hOk, -⟩ | ⟨e', hError, hRaise⟩
    · cases hOk
    · cases hError
      have hSame : m'.cpu.halted = (fetched m i).cpu.halted :=
        ((sure_raise _ _ _).changes.of_ok hRaise).halted_eq not_delivers_halt hm
      exact .inl hSame
  · rw [hHlt] at hEnd
    rcases hEnd with ⟨hOk, hStep⟩ | ⟨e', hError, -⟩
    · cases hOk
      refine .inr (.inl ?_)
      split at hStep
      · exact (sure_singleStep.changes.of_ok hStep).dead_of_dead (hm.of_devices_eq hDevices) hDead
      · cases hStep
        exact hDead
    · cases hError
  · rw [hHlt] at hEnd
    rcases hEnd with ⟨hOk, hStep⟩ | ⟨e', hError, -⟩
    · cases hOk
      exact .inr (.inr ⟨_, hHlt, hm, rfl, hIf, hStep⟩)
    · cases hError

/-- A processor that waits after an instruction, for ever, has executed HLT under the trap flag. -/
theorem trapped_of_asleep (hm : m.Calm) (hAwake : m.cpu.halted = false)
    (h : executeNext m = .ok () m') (hAsleep : m'.cpu.Asleep) :
    m.cpu.regs.flags.trap = true ∧ ∃ i m₁ m₂, fetch m = .ok i m₁ ∧ i.operation = .hlt ∧
      perform i m₁ = .ok () m₂ ∧ singleStep m₂ = .ok () m' ∧
        m'.cpu.regs.flags.interrupt = false := by
  obtain ⟨hHalted, hAlive, hRefuses⟩ := hAsleep
  obtain ⟨i, m₁, -, hFetch, -⟩ := executeNext_eq_ok.1 h
  by_cases hop : i.operation = .hlt
  · rcases executeNext_hlt hm hFetch hop h with hSame | hDead |
      ⟨m₂, hPerform, hCalm, hShadow, hIf, hStep⟩
    · exact absurd (hHalted.symm.trans (hSame.trans hAwake)) (by decide)
    · exact absurd (hAlive.symm.trans hDead) (by decide)
    · split at hStep
      · rename_i hTrap
        have hShadow' : m'.cpu.shadow = false :=
          ((sure_singleStep.changes.of_ok hStep).shadow_eq not_delivers_hold hCalm).trans hShadow
        rw [Cpu.acceptsInterrupt, hShadow'] at hRefuses
        exact ⟨hTrap, i, m₁, m₂, hFetch, hop, hPerform, hStep, by simpa using hRefuses⟩
      · cases hStep
        -- without the trap, interrupts are still unmasked and nothing holds them off
        rw [Cpu.acceptsInterrupt, hIf, hShadow] at hRefuses
        cases hRefuses
  · have hSame := halted_of_ne_hlt hm hFetch hop h
    exact absurd (hHalted.symm.trans (hSame.trans hAwake)) (by decide)

end Exec

variable {m₀ m m₁ m₂ m' : Machine}

/-! ### Sleep -/

/-- While interrupts are refused the end of a step leaves the processor alone. -/
theorem cpu_eq_of_refused (hTick : tick m₁ = .ok () m₂) (hService : serviceLines m₂ = .ok () m')
    (hRefuses : m₁.cpu.acceptsInterrupt = false) : m'.cpu = m₁.cpu := by
  have hCpu : m₂.cpu = m₁.cpu := (eq_of_tick hTick).1
  rcases serviceLines_eq_ok hService with rfl | ⟨hAccepts, -⟩
  · exact hCpu
  · rw [hCpu, hRefuses] at hAccepts
    cases hAccepts

/-- The end of a step puts no processor to sleep. -/
theorem cpu_eq_of_asleep (hTick : tick m₁ = .ok () m₂) (hService : serviceLines m₂ = .ok () m')
    (hm : m₂.Calm) (hAsleep : m'.cpu.Asleep) : m'.cpu = m₁.cpu := by
  have hCpu : m₂.cpu = m₁.cpu := (eq_of_tick hTick).1
  rcases serviceLines_eq_ok hService with rfl | ⟨-, rfl | hServed⟩
  · exact hCpu
  · exact hCpu
  · have hWoken : m'.cpu.halted = false := hServed.halted_eq not_delivers_halt hm
    exact absurd (hAsleep.1.symm.trans hWoken) (by decide)

/-- Nothing that happens to the machine changes a processor that is asleep. -/
theorem Machine.Next.cpu_eq (h : m.Next m') (hAsleep : m.cpu.Asleep) : m'.cpu = m.cpu := by
  cases h with
  | raise n | lower n => rfl
  | step h =>
    obtain ⟨m₁, m₂, ⟨-, rfl⟩ | ⟨hAwake, -⟩, hTick, hService⟩ := step_eq_ok.1 h
    · exact cpu_eq_of_refused hTick hService hAsleep.2.2
    · exact absurd (hAsleep.1.symm.trans hAwake) (by decide)

theorem Machine.Runs.asleep (h : m.Runs m') (hAsleep : m.cpu.Asleep) : m'.cpu.Asleep := by
  induction h with
  | refl => exact hAsleep
  | tail _ hLast ih =>
    rw [hLast.cpu_eq ih]
    exact ih

theorem TrappedHalt.next (h : TrappedHalt m m') : m.Next m' := .step h.2.2.1

theorem TrappedHalt.asleep (h : TrappedHalt m m') (hm : m.Calm) : m'.cpu.Asleep := by
  obtain ⟨hAwake, hTrap, hStep, i, m₁, m₂, m₃, hFetch, hop, hPerform, hSingle, hAlive, hMasked⟩ := h
  obtain ⟨-, -, hm₁⟩ := fetch_eq_ok.1 hFetch
  have hCalm₁ : m₁.Calm := hm.of_devices_eq (by rw [hm₁, devices_fetched])
  have hDelivered : Evolves Delivers m₂ m₃ := sure_singleStep.changes.of_ok hSingle
  have hHalted : m₃.cpu.halted = true := by
    rw [perform_of_fetch hFetch hop] at hPerform
    rcases hlt_cases m₁ with ⟨e, hHlt⟩ |
        ⟨-, m₄, hHlt, hDead, hDevices⟩ | ⟨-, hHlt⟩
    · cases hHlt.symm.trans hPerform
    · cases hHlt.symm.trans hPerform
      have hDead' := hDelivered.dead_of_dead (hCalm₁.of_devices_eq hDevices) hDead
      exact absurd (hAlive.symm.trans hDead') (by decide)
    · cases hHlt.symm.trans hPerform
      exact hDelivered.halted_eq not_delivers_halt hCalm₁
  have hAsleep : m₃.cpu.Asleep := ⟨hHalted, hAlive, by rw [Cpu.acceptsInterrupt, hMasked]; rfl⟩
  obtain ⟨m₄, m₅, ⟨hWaits, -⟩ | ⟨-, hNext⟩, hTick, hService⟩ := step_eq_ok.1 hStep
  · exact absurd (hWaits.symm.trans hAwake) (by decide)
  · have hNext' : executeNext m = .ok () m₃ :=
      executeNext_eq_ok.2 ⟨i, _, m₂, hFetch, .inl ⟨hPerform, by rwa [if_pos hTrap]⟩⟩
    cases hNext.symm.trans hNext'
    rw [cpu_eq_of_refused hTick hService hAsleep.2.2]
    exact hAsleep

/-- Nothing else puts a processor to sleep. -/
theorem trappedHalt_of_next (h : m.Next m') (hm : m.Calm) (hAwake : ¬ m.cpu.Asleep)
    (hAsleep : m'.cpu.Asleep) : TrappedHalt m m' := by
  cases h with
  | raise n | lower n => exact absurd hAsleep hAwake
  | step h =>
    obtain ⟨m₁, m₂, hExecutes, hTick, hService⟩ := step_eq_ok.1 h
    have hCalm₂ : m₂.Calm :=
      hm.of_devices_eq ((eq_of_tick hTick).2.trans hExecutes.devices_eq)
    have hCpu : m'.cpu = m₁.cpu := cpu_eq_of_asleep hTick hService hCalm₂ hAsleep
    rw [hCpu] at hAsleep
    rcases hExecutes with ⟨-, rfl⟩ | ⟨hRuns, hNext⟩
    · exact absurd hAsleep hAwake
    · obtain ⟨hTrap, i, m₃, m₄, hFetch, hop, hPerform, hSingle, hMasked⟩ :=
        trapped_of_asleep hm hRuns hNext hAsleep
      exact ⟨hRuns, hTrap, h, i, m₃, m₄, m₁, hFetch, hop, hPerform, hSingle, hAsleep.2.1, hMasked⟩

/-! ### Real mode -/

/-- In real mode every HLT under the trap flag, with interrupts unmasked, is such a step. -/
theorem trappedHalt_of_real (hm : m.Calm) (hReal : m.cpu.protectedMode = false)
    (hAwake : m.cpu.halted = false) (hAlive : m.cpu.dead = false)
    (hTrap : m.cpu.regs.flags.trap = true) (hIf : m.cpu.regs.flags.interrupt = true)
    (hTable : 7 ≤ m.cpu.idtr.limit.toNat) (hTimer : m.countdown ≠ 0)
    (hCode : (m.cpu.code m.bus).overflows = false)
    (hHlt : (m.cpu.decodeNext m.bus).operation = .hlt) : ∃ m', TrappedHalt m m' := by
  let i := m.cpu.decodeNext m.bus
  let m₁ := fetched m i
  let m₂ := m₁.withCpu fun c => { c with halted := true }
  have hFetch : fetch m = .ok i m₁ := fetch_eq_ok.2 ⟨hCode, rfl, rfl⟩
  have hPerform : perform i m₁ = .ok () m₂ := by
    have hPrivilege : m₁.cpu.requirePrivilege = .ok () := by
      have hReal₁ : m₁.cpu.protectedMode = false := hReal
      rw [Cpu.requirePrivilege, Cpu.cpl, hReal₁]
      rfl
    have hUnmasked : m₁.cpu.regs.flags.interrupt = true := hIf
    have hWaits : hlt m₁ = .ok () m₂ := by
      rw [hlt, bind_of_ok (get_apply m₁), hPrivilege, check_ok, pure_bind, hUnmasked]
      rfl
    exact (congrFun (perform_hlt hHlt) m₁).trans hWaits
  obtain ⟨m₃, hSingle, hEnters, hMasked⟩ := singleStep_of_le (m := m₂) hReal hTable
  have hCount : m₃.countdown = m₂.countdown := hEnters.countdown_eq
  have hDead : m₃.cpu.dead = m₂.cpu.dead := hEnters.dead_eq (by simp [Enters]) hm
  have hRefuses : m₃.cpu.acceptsInterrupt = false := by rw [Cpu.acceptsInterrupt, hMasked]; rfl
  have hNext : executeNext m = .ok () m₃ :=
    executeNext_eq_ok.2 ⟨i, m₁, m₂, hFetch, .inl ⟨hPerform, by rwa [if_pos hTrap]⟩⟩
  obtain ⟨m', hTick⟩ : ∃ m', tick m₃ = .ok () m' := ⟨_, tick_of_ne (by rw [hCount]; exact hTimer)⟩
  have hService : serviceLines m' = .ok () m' :=
    serviceLines_of_refused (by rw [(eq_of_tick hTick).1, hRefuses])
  have hStep : step m = .ok () m' :=
    step_eq_ok.2 ⟨m₃, m', .inr ⟨hAwake, hNext⟩, hTick, hService⟩
  exact ⟨m', hAwake, hTrap, hStep, i, m₁, m₂, m₃, hFetch, hHlt, hPerform, hSingle,
    hDead.trans hAlive, hMasked⟩

/-- The processor after a POPF in real mode. -/
def poppedFlags (c : Cpu) (b : Bus) (w : Width) : Cpu :=
  (c.setStackPointer (wrapOffset c.stack32 (c.stackPointer + UInt32.ofNat w.bytes))).loadFlags
    (c.loadBytes b (.of .ss c.stackPointer c.stack32) w) w

/-- In real mode POPF cannot fail. -/
theorem popf_of_real (hp : m.cpu.protectedMode = false) (i : Instruction) :
    popf i m = .ok () (m.withCpu fun c => poppedFlags c m.bus i.size) := by
  rw [popf, bind_of_ok (pop_of_real hp i.size), modifyCpu_apply]
  simp only [Machine.withCpu, poppedFlags]

theorem step_popf {i : Instruction} (hp : m.cpu.protectedMode = false)
    (hAwake : m.cpu.halted = false) (hTrap : m.cpu.regs.flags.trap = false)
    (hCode : (m.cpu.code m.bus).overflows = false) (hi : m.cpu.decodeNext m.bus = i)
    (hop : i.operation = .popf) (hRep : i.rep = none) (hTimer : 1 < m.countdown)
    (hLines : m.irq.any = false) :
    ∃ m', step m = .ok () m' ∧ m'.cpu = poppedFlags (m.cpu.begin i) m.bus i.size ∧
      m'.bus = m.bus ∧ m'.countdown = m.countdown - 1 := by
  have hReal : (fetched m i).cpu.protectedMode = false := hp
  have hPerform : perform i (fetched m i) =
      .ok () ((fetched m i).withCpu fun c => poppedFlags c (fetched m i).bus i.size) := by
    rw [perform, hRep, once, hop]
    exact popf_of_real hReal i
  have hFetch : fetch m = .ok i (fetched m i) := fetch_eq_ok.2 ⟨hCode, hi.symm, rfl⟩
  exact ⟨_, step_of_perform hAwake hTrap hFetch hPerform hTimer hLines, rfl, rfl, rfl⟩

/-! ### A program that sleeps -/

/-- A program that pops the trap and the interrupt flag and then halts. It fills its segment, so the
flags come from its last word. -/
def sleeperImage : List UInt8 := 0x9D :: 0xF4 :: List.replicate 0xFEFE 0x03

/-- The default machine with the program in it. -/
def sleeper : Machine :=
  ((Machine.ofSettings {}).placeImage sleeperImage programStart).setUpSegments programStart.segment

theorem length_sleeperImage : sleeperImage.length = 0xFF00 := by
  rw [sleeperImage, List.length_cons, List.length_cons, List.length_replicate]

theorem getElem_sleeperImage {i : Nat} (h : i + 2 < sleeperImage.length) :
    sleeperImage[i + 2] = 0x03 := by
  -- the length is a variable here, because a list of this length must not be unfolded
  have hRest {n : Nat} (h : i + 2 < (0x9D :: 0xF4 :: List.replicate n (0x03 : UInt8)).length) :
      (0x9D :: 0xF4 :: List.replicate n (0x03 : UInt8))[i + 2] = 0x03 := by
    rw [List.getElem_cons_succ, List.getElem_cons_succ, List.getElem_replicate]
  exact hRest h

theorem loadCom_sleeper : (Machine.ofSettings {}).loadCom sleeperImage = .ok sleeper := by
  refine loadCom_eq_ok.2 ⟨?_, rfl⟩
  have hSize : (Machine.ofSettings {}).bus.ram.size = 0x110000 := Ram.size_zeros _
  rw [length_sleeperImage, hSize]
  decide

theorem loaded_sleeper : sleeper.Loaded := ⟨{}, [], none, none, sleeperImage, loadCom_sleeper⟩

theorem calm_sleeper : sleeper.Calm := fun _ hd => absurd hd List.not_mem_nil

theorem read8_sleeper {a : UInt32} {i : Nat} (hi : i < sleeperImage.length)
    (ha : a = programStart.linear + UInt32.ofNat i) :
    sleeper.bus.read8 a = sleeperImage[i] := by
  rw [ha]
  refine read8_of_loadCom loadCom_sleeper rfl ?_ hi
  rw [length_sleeperImage]
  decide

/-- The first instruction. -/
def sleeperPopf : Instruction := { operation := .popf, length := 1 }

theorem decodeNext_sleeper : sleeper.cpu.decodeNext sleeper.bus = sleeperPopf := by
  have hLength := length_sleeperImage
  have hCode : (sleeper.cpu.code sleeper.bus).byteAt 0 = 0x9D := by
    rw [byteAt_code _ rfl, read8_sleeper (i := 0) (by omega) (by decide)]
    rfl
  exact Encoding.decode_of_bare (m := sleeper.cpu.features) .popf .full
    (by rw [hCode]; decide) (by rw [hCode]; rfl)

theorem loadBytes_sleeper {c : Cpu} (hBase : c.segmentBase .ss = 0x85F0) :
    c.loadBytes sleeper.bus (.of .ss 0xFFFE false) .word = 0x0303 := by
  have hLength := length_sleeperImage
  have hByte {i j : Nat} (hj : j + 2 < sleeperImage.length)
      (h : 0x85F0 + ((Location.of .ss 0xFFFE false).add (UInt32.ofNat i)).offset =
        programStart.linear + UInt32.ofNat (j + 2)) :
      sleeper.bus.read8 (c.byteAddress (.of .ss 0xFFFE false) i) = 0x03 := by
    rw [← getElem_sleeperImage hj]
    refine read8_sleeper hj ?_
    rw [← h, ← hBase]
    rfl
  rw [Cpu.loadBytes]
  simp only [Width.bytes, joinLittle]
  rw [hByte (j := 0xFEFC) (by omega) (by decide), hByte (j := 0xFEFD) (by omega) (by decide)]
  rfl

/-- The processor before the second instruction. -/
def sleeperCpu : Cpu :=
  ((sleeper.cpu.begin sleeperPopf).setStackPointer 0).loadFlags 0x0303 .word

theorem decodeNext_sleeperCpu : (sleeperCpu.decodeNext sleeper.bus).operation = .hlt := by
  have hLength := length_sleeperImage
  have hCode : (sleeperCpu.code sleeper.bus).byteAt 0 = 0xF4 := by
    rw [byteAt_code _ rfl, read8_sleeper (i := 1) (by omega) (by decide)]
    rfl
  rw [Cpu.decodeNext, Encoding.decode_of_bare .hlt .word]
  · rw [hCode]
    decide
  · rw [hCode]
    rfl

/-- The second instruction finds the trap flag set. -/
theorem step_sleeper : ∃ m, step sleeper = .ok () m ∧ m.cpu = sleeperCpu ∧ m.bus = sleeper.bus ∧
    m.countdown = 0xFFFF := by
  obtain ⟨m, hStep, hCpu, hBus, hTimer⟩ := step_popf (m := sleeper) rfl rfl rfl rfl
    decodeNext_sleeper rfl rfl (by decide) (by decide)
  have hFlags : (sleeper.cpu.begin sleeperPopf).loadBytes sleeper.bus (.of .ss 0xFFFE false) .word =
      0x0303 := loadBytes_sleeper rfl
  refine ⟨m, hStep, ?_, hBus, hTimer⟩
  rw [hCpu, sleeperCpu, ← hFlags]
  rfl

/-! ### When a processor sleeps -/

/-- **A running machine is asleep exactly if it has been through an HLT under the trap flag.** -/
theorem asleep_iff_trappedHalt (h₀ : m₀.Loaded) (hCalm : m₀.Calm) (hRun : m₀.Runs m) :
    m.cpu.Asleep ↔ ∃ m₁ m₂, m₀.Runs m₁ ∧ TrappedHalt m₁ m₂ ∧ m₂.Runs m := by
  constructor
  · intro hAsleep
    induction hRun with
    | refl => exact absurd (hAsleep.1.symm.trans h₀.awake.1) (by decide)
    | @tail m₁ m hPrior hLast ih =>
      by_cases hAwake : m₁.cpu.Asleep
      · obtain ⟨m₂, m₃, hBefore, hHalt, hAfter⟩ := ih hAwake
        exact ⟨m₂, m₃, hBefore, hHalt, hAfter.tail hLast⟩
      · have hHalt : TrappedHalt m₁ m := trappedHalt_of_next hLast (Machine.Runs.calm hPrior hCalm)
          hAwake hAsleep
        exact ⟨m₁, m, hPrior, hHalt, .refl⟩
  · rintro ⟨m₁, m₂, hBefore, hHalt, hAfter⟩
    exact hAfter.asleep (hHalt.asleep (hBefore.calm hCalm))

theorem sleeper_asleep : sleeper.Loaded ∧ sleeper.Calm ∧ ∃ m, sleeper.Runs m ∧ m.cpu.Asleep := by
  have hLoaded : sleeper.Loaded := ⟨{}, [], none, none, sleeperImage, loadCom_sleeper⟩
  have hCalm : sleeper.Calm := fun _ hd => absurd hd List.not_mem_nil
  obtain ⟨m₁, hStep, hCpu, hBus, hTimer⟩ := step_sleeper
  have hRun : sleeper.Runs m₁ := .single (.step hStep)
  obtain ⟨m₂, hHalt⟩ := trappedHalt_of_real (m := m₁) (Machine.Runs.calm hRun hCalm)
    (by rw [hCpu]; rfl) (by rw [hCpu]; rfl) (by rw [hCpu]; rfl) (by rw [hCpu]; rfl)
    (by rw [hCpu]; rfl) (by rw [hCpu]; decide) (by rw [hTimer]; decide) (by rw [hCpu]; rfl)
    (by rw [hCpu, hBus]; exact decodeNext_sleeperCpu)
  have hRun' : sleeper.Runs m₂ := hRun.tail hHalt.next
  exact ⟨hLoaded, hCalm, m₂, hRun',
    (asleep_iff_trappedHalt hLoaded hCalm hRun').2 ⟨m₁, m₂, hRun, hHalt, .refl⟩⟩

end X86
