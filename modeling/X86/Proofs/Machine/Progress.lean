import X86.Proofs.Machine.Halting

/-!
# No step breaks a rule of the machine

What a derivation of a computation out of moves says about its runs.

* `Exec.Composed.ends`: **a derived computation ends, or raises an exception, after a run of moves.**
* `Machine.Ready`: the invariant of a running machine.
* `Machine.Ready.exists_step`: **every step of a running machine comes to its end.**
-/

namespace X86

/-- The processor has made moves; devices and timer are as they were. -/
structure Machine.Drifts (wide : Bool) (m m' : Machine) : Prop where
  cpu : Cpu.Moves wide m.cpu m'.cpu
  devices : m'.devices = m.devices
  period : m'.period = m.period
  countdown : m'.countdown = m.countdown

namespace Machine.Drifts

variable {wide : Bool} {m m₁ m' : Machine}

theorem refl (m : Machine) : m.Drifts wide m := ⟨.refl _, rfl, rfl, rfl⟩

theorem trans (h : m.Drifts wide m₁) (h' : m₁.Drifts wide m') : m.Drifts wide m' :=
  ⟨h.cpu.trans h'.cpu, h'.devices.trans h.devices, h'.period.trans h.period,
    h'.countdown.trans h.countdown⟩

/-- Nothing but the processor has changed. -/
theorem withCpu {g : Cpu → Cpu} (h : Cpu.Moves wide m.cpu (g m.cpu)) :
    m.Drifts wide (m.withCpu g) :=
  ⟨h, rfl, rfl, rfl⟩

/-- A table entry has been marked before the processor moved. -/
theorem loaded {d : Descriptor} {e : LogEntry} {g : Cpu → Cpu} (entry : UInt32)
    (h : Cpu.Moves wide m.cpu (g m.cpu)) :
    m.Drifts wide (((Exec.markEntry m entry d).record e).withCpu g) := by
  rw [Exec.markEntry]
  split <;> exact ⟨h, rfl, rfl, rfl⟩

theorem calm (h : m.Drifts wide m') (hm : m.Calm) : m'.Calm := hm.of_devices_eq h.devices

theorem sound (h : m.Drifts wide m') (hm : m.cpu.Sound wide) : m'.cpu.Sound wide := h.cpu.sound hm

end Machine.Drifts

namespace Exec

variable {wide : Bool} {α β : Type} {P : Cpu → Prop} {x : Exec α} {f : α → Exec β}
  {Q : α → Cpu → Prop} {R : β → Cpu → Prop} {m m' : Machine}

/-- The run ends with an answer or an exception, and never with a violation. -/
def Ends (wide : Bool) (Q : α → Cpu → Prop) (x : Exec α) (m : Machine) : Prop :=
  (∃ a m', x m = .ok a m' ∧ m.Drifts wide m' ∧ Q a m'.cpu) ∨
    ∃ e m', x m = .error (.fault e) m' ∧ m.Drifts wide m'

namespace Ends

theorem of_ok {a : α} (h : x m = .ok a m') (hDrifts : m.Drifts wide m') (hQ : Q a m'.cpu) :
    Ends wide Q x m :=
  .inl ⟨a, m', h, hDrifts, hQ⟩

theorem of_error {e : Exception} (h : x m = .error (.fault e) m') (hDrifts : m.Drifts wide m') :
    Ends wide Q x m :=
  .inr ⟨e, m', h, hDrifts⟩

theorem apply {a : α} (h : Ends wide Q x m) (hx : x m = .ok a m') :
    m.Drifts wide m' ∧ Q a m'.cpu := by
  rcases h with ⟨_, _, h, hDrifts, hQ⟩ | ⟨_, _, h, -⟩
  · cases h.symm.trans hx
    exact ⟨hDrifts, hQ⟩
  · cases h.symm.trans hx

theorem apply_error {s : Stop} (h : Ends wide Q x m) (hx : x m = .error s m') :
    m.Drifts wide m' := by
  rcases h with ⟨_, _, h, -, -⟩ | ⟨_, _, h, hDrifts⟩
  · cases h.symm.trans hx
  · cases h.symm.trans hx
    exact hDrifts

theorem bind (hx : Ends wide Q x m)
    (hf : ∀ a m', m.Drifts wide m' → Q a m'.cpu → Ends wide R (f a) m') :
    Ends wide R (x >>= f) m := by
  rcases hx with ⟨a, m₁, hx, hDrifts, hQ⟩ | ⟨e, m₁, hx, hDrifts⟩
  · rcases hf a m₁ hDrifts hQ with ⟨b, m', hf, hDrifts', hR⟩ | ⟨e, m', hf, hDrifts'⟩
    · exact .of_ok ((bind_of_ok hx).trans hf) (hDrifts.trans hDrifts') hR
    · exact .of_error ((bind_of_ok hx).trans hf) (hDrifts.trans hDrifts')
  · exact .of_error (bind_of_error hx) hDrifts

theorem attempt {x : Exec Unit} {Q : Unit → Cpu → Prop} (hx : Ends wide Q x m) :
    Ends wide (fun _ _ => True) (Exec.attempt x) m := by
  rcases hx with ⟨_, m₁, hx, hDrifts, -⟩ | ⟨e, m₁, hx, hDrifts⟩
  · exact .of_ok (attempt_eq_none.2 hx) hDrifts trivial
  · exact .of_ok (attempt_eq_some.2 hx) hDrifts trivial

theorem check {r : Except Exception α} (hQ : ∀ a, Q a m.cpu) : Ends wide Q (Exec.check r) m := by
  cases r with
  | ok a => exact .of_ok rfl (.refl m) (hQ a)
  | error e => exact .of_error rfl (.refl m)

theorem writeMem (l : Location) (w : Width) (v : UInt32) (hP : P m.cpu) :
    Ends wide (fun _ => P) (Exec.writeMem l w v) m := by
  have h := writeMem_eq l w v m
  split at h
  · exact .of_ok h ⟨.refl _, rfl, rfl, rfl⟩ hP
  · exact .of_error h (.refl m)

/-- A device that leaves the processor alone may serve an interrupt. -/
theorem serveInterrupt (hm : m.Calm) (vector : UInt8) (hP : P m.cpu) :
    Ends wide (fun _ => P) (Exec.serveInterrupt vector) m := by
  rcases serveInterrupt_cases vector m with h | ⟨n, d, hMem, h⟩
  · exact .of_ok h (.refl m) hP
  · have hCpu : (served m n d vector).cpu = m.cpu := hm d hMem vector m.cpu _
    exact .of_ok h ⟨hCpu ▸ .refl _, rfl, rfl, rfl⟩ (hCpu ▸ hP)

theorem loadSegment {s : SegReg} (selector : UInt16) (hs : s.Fits wide)
    (hc : s = .cs → wide = false) (hm : m.cpu.Sound wide) :
    Ends wide (fun _ _ => True) (Exec.loadSegment s selector) m := by
  rcases loadSegment_cases s selector m with
    ⟨hp, h⟩ | ⟨hp, hNull, -, h⟩ | ⟨entry, d, hp, hLookup, h⟩ | ⟨e, -, h⟩
  · exact .of_ok h (.withCpu (.single (.realSegment _ s selector hp hs hc))) trivial
  · exact .of_ok h (.withCpu (.single (.nullSegment _ s selector hp hNull))) trivial
  · have hNotCode : s ≠ .cs := fun h =>
      Bool.false_ne_true ((hm.narrow (hc h)).real.symm.trans hp)
    obtain ⟨-, -, -, hSuits, hPresent⟩ := lookupSegment_eq_ok.1 hLookup
    have hMove : Cpu.Move wide m.cpu (m.cpu.loadCache s selector d.markAccessed) :=
      .tableSegment _ s selector d hp hNotCode hSuits hPresent
    rw [loadEntry_apply] at h
    exact .of_ok h (.loaded entry (.single hMove)) trivial
  · exact .of_error h (.refl m)

theorem jumpFar (selector : UInt16) (v : UInt32) :
    Ends wide (fun _ _ => True) (Exec.jumpFar selector v) m := by
  rcases loadSegment_cases .cs selector m with
    ⟨hp, h⟩ | ⟨-, hNull, -, -⟩ | ⟨entry, d, hp, hLookup, h⟩ | ⟨e, -, h⟩
  · have hJump : Exec.jumpFar selector v m =
        .ok () (m.withCpu fun c => (c.loadRealSegment .cs selector).jump v) := bind_of_ok h
    exact .of_ok hJump (.withCpu (.single (.realFar _ selector v hp))) trivial
  · exact absurd rfl hNull.2
  · obtain ⟨-, -, -, hSuits, hPresent⟩ := lookupSegment_eq_ok.1 hLookup
    have hMove : Cpu.Move wide m.cpu ((m.cpu.loadCache .cs selector d.markAccessed).jump v) :=
      .tableFar _ selector d v hp hSuits hPresent
    rw [loadEntry_apply] at h
    have hJump : Exec.jumpFar selector v m = .ok () (((markEntry m entry d).record
        (.segmentLoaded .cs selector d.markAccessed)).withCpu fun c =>
          (c.loadCache .cs selector d.markAccessed).jump v) := bind_of_ok h
    exact .of_ok hJump (.loaded entry (.single hMove)) trivial
  · exact .of_error (bind_of_error h) (.refl m)

/-- The offset of a sound processor can be counted on from. -/
theorem fetch (hm : m.cpu.Sound wide) :
    Ends wide (fun i _ => ∃ c b, c.Sound wide ∧ i = Cpu.decodeNext c b) Exec.fetch m := by
  have hOverflows : (m.cpu.code m.bus).overflows = false := by
    rcases hm.eip with hWide | hLow
    · rw [Code.overflows, show (m.cpu.code m.bus).wide = true from hWide]
      rfl
    · exact overflows_of_le m.bus hLow
  have hBegin (i : Instruction) : m.Drifts wide (fetched m i) :=
    ⟨(Cpu.Moves.single (.jump _ _)).trans (.activity _ _ _ _ _ _), rfl, rfl, rfl⟩
  exact .of_ok (fetch_eq_ok.2 ⟨hOverflows, rfl, rfl⟩) (hBegin _) ⟨m.cpu, m.bus, hm, rfl⟩

end Ends

/-- **A derived computation ends, or raises an exception, after a run of moves.** -/
theorem Composed.ends (h : Composed wide P x Q) (hm : m.Calm) (hc : m.cpu.Sound wide)
    (hP : P m.cpu) : Ends wide Q x m := by
  -- over the derivation: each part starts in a sound processor, because what came before were moves
  induction h generalizing m with
  | weaken hx hP' hQ ih =>
    rcases ih hm hc (hP' _ hP) with ⟨a, m', h, hDrifts, hQ'⟩ | ⟨e, m', h, hDrifts⟩
    · exact .of_ok h hDrifts (hQ _ _ hQ')
    · exact .of_error h hDrifts
  | pure a => exact .of_ok rfl (.refl m) ⟨rfl, hP⟩
  | bind hx hf ihx ihf =>
    refine (ihx hm hc hP).bind fun a m' hDrifts hQ => ?_
    exact ihf a m'.cpu hQ (hDrifts.calm hm) (hDrifts.sound hc) hQ
  | fault e => exact .of_error rfl (.refl m)
  | attempt hx ih => exact (ih hm hc hP).attempt
  | look g => exact .of_ok rfl (.refl m) ⟨⟨rfl, hc⟩, hP⟩
  | move g hg => exact .of_ok rfl (.withCpu (hg _ hP)) ⟨_, hP, rfl⟩
  | log e => exact .of_ok rfl ⟨.refl _, rfl, rfl, rfl⟩ hP
  | readMem l w hl => exact .check fun _ => hP
  | writeMem l w v hl => exact .writeMem l w v hP
  | ask g => exact .of_ok rfl (.refl m) hP
  | exchange t => exact .of_ok rfl ⟨.refl _, rfl, rfl, rfl⟩ hP
  | serve vector => exact .serveInterrupt hm vector hP
  | loadSegment s selector hs hCs => exact .loadSegment selector hs hCs hc
  | jumpFar selector v => exact .jumpFar selector v
  | vector v => exact .of_ok rfl (.refl m) ⟨rfl, hP⟩
  | gate v software hw => exact .of_ok rfl (.refl m) ⟨rfl, hP⟩
  | fetch => exact .fetch hc

/-! ### Instructions and interrupts -/

/-- What a sound processor decodes is allowed on its model. -/
theorem allowed_decodeNext {c : Cpu} (hc : c.Sound wide) (b : Bus) :
    (c.decodeNext b).Allowed wide := by
  have hAllowed := decode_allowed (m := c.features) (c := c.code b) fun hw =>
    hc.code32_eq (hc.model.symm.trans hw)
  rwa [hc.model] at hAllowed

theorem composed_executeNext : Composed wide P executeNext fun _ _ => True := by
  refine .afterCpu fun c hc => Composed.fetch.bind fun i _ hFetch => ?_
  obtain ⟨c', b, hc', rfl⟩ := hFetch
  refine (composed_perform (allowed_decodeNext hc' b)).attempt.next fun r => ?_
  cases r with
  | none => exact .ite (fun _ => composed_singleStep) fun _ => .answer ()
  | some e => exact composed_raise e hc.fits_snapshot _

theorem composed_serveVector (vector : UInt8) :
    Composed wide P (serveVector vector) fun _ _ => True := by
  refine .afterCpu fun c hc => (composed_interrupt _ _ _).attempt.next fun r => ?_
  cases r with
  | none => exact .answer ()
  | some e =>
    refine (composed_restore hc.fits_snapshot).next fun _ => ?_
    exact (composed_deliver e hc.fits_snapshot).next fun _ => .answer ()

/-- What an instruction raises is delivered and not left over. -/
theorem faultless_executeNext (m : Machine) (e : Exception) (m' : Machine) :
    executeNext m ≠ .error (.fault e) m' := by
  intro h
  rw [executeNext, bind_of_ok (cpu_apply m)] at h
  rcases bind_eq_error.1 h with hFetch | ⟨i, m₁, -, h⟩
  · rw [fetch, bind_of_ok (get_apply m)] at hFetch
    split at hFetch <;> cases hFetch
  · rcases bind_eq_error.1 h with hPerform | ⟨r, m₂, -, h⟩
    · exact attempt_ne_fault _ m₁ e m' hPerform
    · cases r with
      | none =>
        cases hTrap : m.cpu.regs.flags.trap with
        | true =>
          rw [hTrap] at h
          exact sure_singleStep.faultless m₂ e m' h
        | false =>
          rw [hTrap] at h
          cases h
      | some e' => exact (sure_raise e' _ _).faultless m₂ e m' h

/-- A computation without faults comes to its end. -/
theorem Ends.exists_ok (h : Ends wide Q x m) (hx : ∀ e m', x m ≠ .error (.fault e) m') :
    ∃ a m', x m = .ok a m' ∧ m.Drifts wide m' ∧ Q a m'.cpu :=
  h.resolve_right fun ⟨e, m', hError, _⟩ => hx e m' hError

end Exec

namespace Machine

/-! ### The invariant of a run -/

/-- What holds of a machine while it runs. -/
structure Ready (wide : Bool) (m : Machine) : Prop where
  calm : m.Calm
  cpu : m.cpu.Sound wide
  period : m.period ≠ 0
  countdown : m.countdown ≠ 0

variable {wide : Bool} {m m' : Machine}

theorem Ready.drifts (h : m.Ready wide) (hDrifts : m.Drifts wide m') : m'.Ready wide :=
  ⟨hDrifts.calm h.calm, hDrifts.sound h.cpu, hDrifts.period ▸ h.period,
    hDrifts.countdown ▸ h.countdown⟩

/-- The timer keeps running. -/
theorem Ready.ticked (h : m.Ready wide) : (Exec.ticked m).Ready wide := by
  rw [Exec.ticked]
  split
  · exact ⟨h.calm, h.cpu, h.period, h.period⟩
  · refine ⟨h.calm, h.cpu, h.period, ?_⟩
    have hSome := h.countdown
    change m.countdown - 1 ≠ 0
    omega

theorem Ready.ends_executeNext (h : m.Ready wide) :
    Exec.Ends wide (fun _ _ => True) Exec.executeNext m :=
  (Exec.composed_executeNext (P := fun _ => True)).ends h.calm h.cpu trivial

theorem Ready.drifts_of_executes (h : m.Ready wide) (hExecutes : Exec.Executes m m') :
    m.Drifts wide m' := by
  rcases hExecutes with ⟨-, rfl⟩ | ⟨-, hNext⟩
  · exact .refl _
  · exact (h.ends_executeNext.apply hNext).1

theorem Ready.exists_executes (h : m.Ready wide) : ∃ m', Exec.Executes m m' := by
  cases hHalted : m.cpu.halted with
  | true => exact ⟨m, .inl ⟨hHalted, rfl⟩⟩
  | false =>
    obtain ⟨_, m', hNext, -⟩ := h.ends_executeNext.exists_ok (Exec.faultless_executeNext m)
    exact ⟨m', .inr ⟨hHalted, hNext⟩⟩

theorem drifts_woken (m : Machine) : m.Drifts wide (Exec.woken m) :=
  ⟨.activity _ _ _ _ _ _, rfl, rfl, rfl⟩

theorem Ready.exists_serviceLines (h : m.Ready wide) :
    ∃ m', Exec.serviceLines m = .ok () m' ∧ m.Drifts wide m' := by
  rw [Exec.serviceLines_apply]
  split
  · split
    · exact ⟨_, rfl, .refl _, rfl, rfl, rfl⟩
    · rename_i line _
      have hWoken := h.drifts (drifts_woken m)
      obtain ⟨_, m', hServe, hDrifts, -⟩ := ((Exec.composed_serveVector (P := fun _ => True)
        (line.vector m.masterBase m.slaveBase)).ends hWoken.calm hWoken.cpu trivial).exists_ok
          ((Exec.sure_serveVector _).faultless _)
      exact ⟨m', hServe, (drifts_woken m).trans hDrifts⟩
  · exact ⟨m, rfl, .refl m⟩

/-- A step comes to its end, and another one can follow. -/
theorem Ready.exists_step (h : m.Ready wide) : ∃ m', Exec.step m = .ok () m' ∧ m'.Ready wide := by
  obtain ⟨m₁, hExecutes⟩ := h.exists_executes
  have hReady := h.drifts (h.drifts_of_executes hExecutes)
  obtain ⟨m', hService, hDrifts'⟩ := hReady.ticked.exists_serviceLines
  exact ⟨m', Exec.step_eq_ok.2 ⟨m₁, _, hExecutes, Exec.tick_of_ne hReady.countdown, hService⟩,
    hReady.ticked.drifts hDrifts'⟩

theorem Next.ready (h : m.Next m') (hm : m.Ready wide) : m'.Ready wide := by
  cases h with
  | step h =>
    obtain ⟨m₁, hStep, hReady⟩ := hm.exists_step
    cases h.symm.trans hStep
    exact hReady
  | raise n | lower n => exact ⟨hm.calm, hm.cpu, hm.period, hm.countdown⟩

theorem Runs.ready (h : m.Runs m') (hm : m.Ready wide) : m'.Ready wide := by
  induction h with
  | refl => exact hm
  | tail _ hLast ih => exact hLast.ready ih

/-! ### Starts -/

theorem sound_reset (model : Model) : (Cpu.reset model).Sound model.features.wideRegisters := by
  have hCaches (model : Model) (s : SegReg) :
      ({ model } : Cpu).caches.get s = .realMode (({ model } : Cpu).regs.selector s) := by
    cases s <;> rfl
  have hGprs : ({} : Registers).gprs.Narrow := fun r => by cases r <;> decide
  have hReal : bitAt (({} : Registers).readControl .zero) 0 = false := by decide
  have hNarrow (model : Model) : ({ model } : Cpu).Narrow :=
    { real := hReal, gdtr := rfl, idtr := rfl, ldtr := rfl, tr := rfl
      caches := hCaches model, fs := rfl, gs := rfl, gprs := hGprs
      eip := show (0 : UInt32) ≤ 0xFFFF by decide, flags := .refl _ }
  cases model with
  | i8086 | i80186 => exact ⟨rfl, .inr (by decide), fun _ => hNarrow _⟩
  | i80386 => exact ⟨rfl, .inr (by decide), fun hw => absurd hw (by decide)⟩

/-- A loader does to the processor what a program could do. -/
theorem moves_loaded {c : Cpu} (hReal : c.protectedMode = false) (p : FarPointer)
    (data : UInt16) (sp : UInt32) :
    Cpu.Moves wide c
      ((((((c.loadRealSegment .cs p.segment).setEip p.offset.toUInt32).loadRealSegment .ds
        data).loadRealSegment .es data).loadRealSegment .ss data).writeRegister (.word .sp) sp) := by
  have hLoad (s : SegReg) (hs : s ≠ .fs ∧ s ≠ .gs ∧ s ≠ .cs) (c : Cpu)
      (hReal : c.protectedMode = false) : Cpu.Moves wide c (c.loadRealSegment s data) :=
    .single (.realSegment c s data hReal (fun h => (h.elim hs.1 hs.2.1).elim)
      fun h => absurd h hs.2.2)
  have hCode : Cpu.Moves wide c
      ((c.loadRealSegment .cs p.segment).setEip p.offset.toUInt32) := by
    rw [Exec.setEip_eq_jump]
    exact .single (.realFar c _ _ hReal)
  refine hCode.trans ?_
  refine (hLoad .ds (by decide) _ (by exact hReal)).trans ?_
  refine (hLoad .es (by decide) _ (by exact hReal)).trans ?_
  refine (hLoad .ss (by decide) _ (by exact hReal)).trans ?_
  exact .single (.register _ (.word .sp) sp (Register.fits_word .sp))

theorem Loaded.ready (h : m.Loaded) (hm : m.Calm) : m.Ready m.cpu.features.wideRegisters := by
  obtain ⟨s, devices, window, log, image, h⟩ := h
  obtain ⟨-, rfl⟩ := loadCom_eq_ok.1 h
  have hReal : (Cpu.reset s.model).protectedMode = false := by cases s.model <;> decide
  have hLoaded := (moves_loaded hReal programStart programStart.segment 0xFFFE).sound
    (sound_reset s.model)
  have hPeriod : max s.period 1 ≠ 0 := Nat.ne_of_gt (Nat.le_max_right _ _)
  exact ⟨hm, hLoaded.model ▸ hLoaded, hPeriod, hPeriod⟩

/-! ### No step breaks a rule -/

end Machine

/-- No sum or difference in a check of a segment or table limit leaves its range. -/
structure Cpu.CountsLimits (c : Cpu) : Prop where
  segment : ∀ s offset (w : Width), ∃ answer,
    (c.caches.get s).contains? offset w.bytes = some answer
  selector : ∀ selector : UInt16, TableRegister.isEntryOffset selector.toUInt32 = true
  vector : ∀ vector : UInt8, TableRegister.isEntryOffset (vector.toUInt32 <<< 3) = true

theorem Cpu.countsLimits (c : Cpu) : c.CountsLimits := by
  refine ⟨fun s offset w => ⟨_, if_neg ?_⟩, fun selector => decide_eq_true ?_,
    fun vector => decide_eq_true ?_⟩
  · cases w <;> simp [Width.bytes]
  · have hSelector := selector.toNat_lt
    rw [UInt16.toNat_toUInt32]
    omega
  · have hVector := vector.toNat_lt
    rw [UInt32.toNat_shiftLeft, UInt8.toNat_toUInt32, Nat.shiftLeft_eq]
    simp
    omega

namespace Machine

variable {m₀ m : Machine}

/-- **Every step of a running machine comes to its end**: no instruction, delivery or timer tick
breaks a rule of the machine, and no limit check leaves its range. -/
theorem step_completes (hLoaded : m₀.Loaded) (hCalm : m₀.Calm) (hRun : m₀.Runs m) :
    (∃ m', Exec.step m = .ok () m') ∧ m.cpu.CountsLimits := by
  obtain ⟨m', hStep, -⟩ := (hRun.ready (hLoaded.ready hCalm)).exists_step
  exact ⟨⟨m', hStep⟩, m.cpu.countsLimits⟩

theorem step_completes_sleeper :
    sleeper.Loaded ∧ sleeper.Calm ∧ ∃ m m', sleeper.Runs m ∧ m.irq.any = true ∧
      Exec.step m = .ok () m' := by
  have hRun : sleeper.Runs { sleeper with irq := sleeper.irq.raise 3 } := .single (.raise _ 3)
  obtain ⟨⟨m', hStep⟩, -⟩ := step_completes loaded_sleeper calm_sleeper hRun
  exact ⟨loaded_sleeper, calm_sleeper, _, m', hRun, by decide, hStep⟩

end Machine

end X86
