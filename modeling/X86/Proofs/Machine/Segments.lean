import X86.Proofs.Machine.Escalation

/-!
# Descriptor caches

What a segment register holds has been found fit for it when it was loaded, and mode switches leave
it as it is. So the caches are well formed in every state of a run, whatever the host does between
the steps, as long as neither it nor a device edits them.

* `Descriptor.BelongsIn`, `Cpu.Segmented`: what a cache can hold.
* `Change.segmented`, `Evolves.segmented`: single changes, and runs of them. A change that goes back
  to a snapshot is left out, because the snapshot brings a cache of its own.
* `Attempt.Settles.segmented`: deliveries, which go back to where the instruction began.
* `Machine.caches_well_formed`: **every state of a run has well-formed caches, and null descriptors
  refuse every access.**
-/

namespace X86

/-- What the cache of a segment register can hold. -/
def Descriptor.BelongsIn (d : Descriptor) : SegReg → Prop
  | .ss => d.isPresent = true ∧ d.isSystem = false ∧ d.isData = true ∧ d.isWritable = true
  | .cs => (∃ selector, d = .realMode selector) ∨ d.isPresent = true ∧ d.isCode = true
  | _ => d = {} ∨ d.isPresent = true ∧ d.isSystem = false ∧ d.isReadable = true

/-- The caches are well formed. -/
def Cpu.Segmented (c : Cpu) : Prop := ∀ s, (c.caches.get s).BelongsIn s

/-- No device edits the caches. -/
def Machine.SparesCaches (m : Machine) : Prop :=
  ∀ d ∈ m.devices, ∀ vector cpu bus, (d.serve vector cpu bus).cpu.caches = cpu.caches

/-! ### Descriptors -/

namespace Descriptor

variable {d : Descriptor} {s : SegReg}

theorem belongsIn_realMode (selector : UInt16) (s : SegReg) :
    (realMode selector).BelongsIn s := by
  -- the access byte is the same for all selectors
  have hAccess : (realMode 0).isPresent = true ∧ (realMode 0).isSystem = false ∧
      (realMode 0).isData = true ∧ (realMode 0).isWritable = true := by decide
  cases s with
  | cs => exact .inl ⟨selector, rfl⟩
  | ss => exact hAccess
  | _ => exact .inr ⟨hAccess.1, hAccess.2.1, Bool.or_eq_true_iff.2 (.inl hAccess.2.2.1)⟩

theorem belongsIn_null (hs : s ≠ .ss ∧ s ≠ .cs) : ({} : Descriptor).BelongsIn s := by
  cases s with
  | ss => exact absurd rfl hs.1
  | cs => exact absurd rfl hs.2
  | _ => exact .inl rfl

/-- The accessed bit is no part of what makes a descriptor fit. -/
theorem accessBit_markAccessed (d : Descriptor) (n : Nat) :
    d.markAccessed.accessBit (n + 1) = d.accessBit (n + 1) := by
  rw [accessBit, markAccessed, UInt8.toNat_or, Nat.testBit_or, UInt8.toNat_one, Nat.testBit_succ 1,
    Nat.zero_testBit, Bool.or_false, accessBit]

theorem isPresent_markAccessed (d : Descriptor) : d.markAccessed.isPresent = d.isPresent :=
  d.accessBit_markAccessed 6

theorem suits_markAccessed (d : Descriptor) (s : SegReg) : d.markAccessed.suits s = d.suits s := by
  have hSystem := d.accessBit_markAccessed 3
  have hCode := d.accessBit_markAccessed 2
  have hWide := d.accessBit_markAccessed 0
  cases s <;>
    simp only [suits, isCode, isReadable, isWritable, isData, isSystem, hSystem, hCode, hWide]

/-- What has been found fit for a register, and present, belongs in its cache. -/
theorem belongsIn_of_suits (hSuits : d.suits s = true) (hPresent : d.isPresent = true) :
    d.BelongsIn s := by
  have hKind (h : d.isData = true ∨ d.isCode = true) : d.isSystem = false := by
    rcases h with h | h <;> simpa using (Bool.and_eq_true_iff.1 h).1
  cases s with
  | ss =>
    obtain ⟨hData, hWritable⟩ := Bool.and_eq_true_iff.1 hSuits
    exact ⟨hPresent, hKind (.inl hData), hData, hWritable⟩
  | cs => exact .inr ⟨hPresent, hSuits⟩
  | _ =>
    refine .inr ⟨hPresent, ?_⟩
    rcases Bool.or_eq_true_iff.1 hSuits with hData | hCode
    · exact ⟨hKind (.inl hData), by rw [isReadable, hData, Bool.true_or]⟩
    · obtain ⟨hCode, hReadable⟩ := Bool.and_eq_true_iff.1 hCode
      exact ⟨hKind (.inr hCode), hReadable⟩

theorem belongsIn_markAccessed (hSuits : d.suits s = true) (hPresent : d.isPresent = true) :
    d.markAccessed.BelongsIn s :=
  belongsIn_of_suits (d.suits_markAccessed s ▸ hSuits) (d.isPresent_markAccessed ▸ hPresent)

/-- A null descriptor allows nothing. -/
theorem allows_null (kind : AccessKind) : ({} : Descriptor).allows kind = false := by
  cases kind <;> rfl

end Descriptor

/-! ### Changes -/

namespace Cpu.Segmented

variable {c c' : Cpu}

theorem of_caches_eq (hc : c.Segmented) (h : c'.caches = c.caches) : c'.Segmented := by
  rw [Segmented, h]
  exact hc

/-- A register is loaded. -/
theorem load (hc : c.Segmented) {s : SegReg} {d : Descriptor} (hd : d.BelongsIn s)
    (h : c'.caches = c.caches.set s d) : c'.Segmented := by
  intro k
  rw [h]
  by_cases hk : k = s
  · rw [hk, SegMap.get_set_self]
    exact hd
  · rw [SegMap.get_set_ne _ _ hk]
    exact hc k

/-- The code segment to go back to. -/
theorem snapshot (hc : c.Segmented) : c.snapshot.csCache.BelongsIn .cs := hc .cs

/-- An instruction is taken back. -/
theorem restore (hc : c.Segmented) {s : Snapshot} (hs : s.csCache.BelongsIn .cs) :
    (c.restore s).Segmented :=
  hc.load hs rfl

/-- In protected mode a null descriptor refuses every access. -/
theorem mayAccess_of_null {l : Location} (hp : c.protectedMode = true)
    (hNull : c.caches.get l.seg = {}) (n : Nat) (kind : AccessKind) :
    c.mayAccess l n kind = false := by
  rw [mayAccess, hp, hNull, Descriptor.allows_null]
  rfl

/-- The stack segment is no null segment. -/
theorem ne_ss_of_null (hc : c.Segmented) {s : SegReg} (hNull : c.caches.get s = {}) : s ≠ .ss := by
  rintro rfl
  have hPresent := (hc .ss).1
  rw [hNull] at hPresent
  exact absurd hPresent (by decide)

end Cpu.Segmented

section Changes

variable {K : ChangeKind → Prop} {m m' : Machine}

/-- Every single change keeps the caches well formed, but one that brings a cache of its own. -/
theorem Change.segmented (hRestore : ¬ K .restore) (hServe : K .service → m.SparesCaches)
    (h : Change K m m') (hm : m.cpu.Segmented) : m'.cpu.Segmented := by
  cases h with
  | realSegment s selector => exact hm.load (Descriptor.belongsIn_realMode selector s) rfl
  | nullSegment s selector _ _ hs => exact hm.load (Descriptor.belongsIn_null hs) rfl
  | tableSegment s selector d _ _ _ hd hd' =>
    exact hm.load (Descriptor.belongsIn_markAccessed hd hd') rfl
  | serve n d vector hK hd => exact hm.of_caches_eq (hServe hK d hd ..)
  | restore s hK => exact absurd hK hRestore
  | table t => cases t <;> exact hm
  | selector s => cases s <;> exact hm
  | _ => exact hm

theorem Evolves.segmented (hRestore : ¬ K .restore) (hServe : K .service → m.SparesCaches)
    (h : Evolves K m m') (hm : m.cpu.Segmented) : m'.cpu.Segmented := by
  induction h with
  | refl => exact hm
  | tail hPrior hLast ih =>
    refine hLast.segmented hRestore (fun hK => ?_) ih
    rw [Machine.SparesCaches, Evolves.devices_eq hPrior]
    exact hServe hK

end Changes

/-! ### Deliveries -/

namespace Exec

variable {m m₁ m' : Machine} {s : Snapshot}

/-- Entering a handler keeps the caches well formed, whether it succeeds or not. -/
theorem segmented_interrupt (vector : UInt8) (errorCode : Option UInt16) (software : Bool)
    (hm : m.cpu.Segmented) : (after (interrupt vector errorCode software) m).cpu.Segmented := by
  have hChanges : Changes Enters (interrupt vector errorCode software) :=
    .interrupt (.inl rfl) (.inr rfl) vector errorCode software
  exact (hChanges m).segmented (by simp [Enters]) (by simp [Enters]) hm

end Exec

theorem Attempt.Settles.segmented {s : Snapshot} {a : Attempt} {entered : Bool} {m' : Machine}
    (h : Settles s a entered m') (hs : s.csCache.BelongsIn .cs) (ha : a.machine.cpu.Segmented) :
    m'.cpu.Segmented := by
  have hRun {a : Attempt} (ha : a.machine.cpu.Segmented) :=
    Exec.segmented_interrupt a.exception.vector a.exception.errorCode a.software ha
  -- each further attempt starts from the instruction taken back
  induction h with
  | entered h => exact Exec.after_of_ok h ▸ hRun ha
  | @replaced a b second m m' entered h hNext _ ih =>
    refine ih ?_
    rw [Attempt.Next.cpu_eq ⟨second, m, h, hNext⟩]
    exact ha.restore hs
  | @shut a second m h => exact (Exec.after_of_error h ▸ hRun ha).of_caches_eq rfl

namespace Exec

variable {m m₁ m' : Machine} {s : Snapshot}

theorem segmented_deliver {e : Exception} {entered : Bool} (hm : m.cpu.Segmented)
    (hs : s.csCache.BelongsIn .cs) (h : deliver e s m = .ok entered m') : m'.cpu.Segmented := by
  obtain ⟨entered', m₁, hDeliver, hSettles⟩ := deliver_settles e s m
  cases h.symm.trans hDeliver
  exact hSettles.segmented hs hm

theorem segmented_singleStep (hm : m.cpu.Segmented) (h : singleStep m = .ok () m') :
    m'.cpu.Segmented := by
  rw [singleStep, bind_of_ok (cpu_apply m)] at h
  obtain ⟨entered, m₁, hDeliver, hEnd⟩ := bind_eq_ok.1 h
  cases hEnd
  exact segmented_deliver hm hm.snapshot hDeliver

theorem segmented_raise {e : Exception} {stepping : Bool} (hm : m.cpu.Segmented)
    (hs : s.csCache.BelongsIn .cs) (h : raise e s stepping m = .ok () m') :
    m'.cpu.Segmented := by
  have hEnd {m : Machine} (hm : m.cpu.Segmented) (h : (do
      let entered ← deliver e s
      if entered ∧ e.isTrap ∧ stepping then singleStep) m = .ok () m') : m'.cpu.Segmented := by
    obtain ⟨entered, m₁, hDeliver, hRest⟩ := bind_eq_ok.1 h
    have hKept := segmented_deliver hm hs hDeliver
    split at hRest
    · exact segmented_singleStep hKept hRest
    · cases hRest
      exact hKept
  rw [raise] at h
  split at h
  · exact hEnd hm h
  · obtain ⟨_, m₁, hRestore, hRest⟩ := bind_eq_ok.1 h
    cases hRestore
    exact hEnd (m := m.withCpu (·.restore s)) (hm.restore hs) hRest

theorem segmented_serveVector {vector : UInt8} (hm : m.cpu.Segmented)
    (h : serveVector vector m = .ok () m') : m'.cpu.Segmented := by
  rw [serveVector, bind_of_ok (cpu_apply m)] at h
  obtain ⟨r, m₁, hAttempt, h⟩ := bind_eq_ok.1 h
  have hEntered := segmented_interrupt vector none false hm
  rw [← after_attempt, after_of_ok hAttempt] at hEntered
  cases r with
  | none =>
    cases h
    exact hEntered
  | some e =>
    obtain ⟨_, m₂, hRestore, h⟩ := bind_eq_ok.1 h
    cases hRestore
    obtain ⟨entered, m₃, hDeliver, hEnd⟩ := bind_eq_ok.1 h
    cases hEnd
    exact segmented_deliver (m := m₁.withCpu (·.restore m.cpu.snapshot))
      (hEntered.restore hm.snapshot) hm.snapshot hDeliver

/-! ### Steps -/

theorem segmented_executeNext (hDevices : m.SparesCaches) (hm : m.cpu.Segmented)
    (h : executeNext m = .ok () m') : m'.cpu.Segmented := by
  obtain ⟨i, m₁, m₂, hFetch, hEnd⟩ := executeNext_eq_ok.1 h
  have hPerform := changes_fetched hFetch
  obtain ⟨-, -, rfl⟩ := fetch_eq_ok.1 hFetch
  have hKept {m₂ : Machine} (h : Evolves (· ∈ i.changes) (fetched m i) m₂) : m₂.cpu.Segmented :=
    Evolves.segmented (m := fetched m i) (restore_not_mem_changes i) (fun _ => hDevices) h hm
  rcases hEnd with ⟨hOk, hStep⟩ | ⟨e, hError, hRaise⟩
  · have hm₂ := hKept (hPerform.of_ok hOk)
    split at hStep
    · exact segmented_singleStep hm₂ hStep
    · cases hStep
      exact hm₂
  · exact segmented_raise (hKept (hPerform.of_error hError)) hm.snapshot hRaise

theorem segmented_step (hDevices : m.SparesCaches) (hm : m.cpu.Segmented)
    (h : step m = .ok () m') : m'.cpu.Segmented := by
  obtain ⟨m₁, m₂, hExecutes, hTick, hService⟩ := step_eq_ok.1 h
  have hm₁ : m₁.cpu.Segmented := by
    rcases hExecutes with ⟨-, rfl⟩ | ⟨-, hNext⟩
    · exact hm
    · exact segmented_executeNext hDevices hm hNext
  have hm₂ : m₂.cpu.Segmented := (eq_of_tick hTick).1 ▸ hm₁
  rw [serviceLines_apply] at hService
  split at hService
  · split at hService
    · cases hService
      exact hm₂
    · exact segmented_serveVector (m := woken m₂) hm₂ hService
  · cases hService
    exact hm₂

end Exec

/-! ### Runs -/

namespace Machine

variable {m₀ m m' : Machine}

/-- What can happen to a machine and its host: a step, or an edit of whatever is not a cache. -/
inductive Hosted : Machine → Machine → Prop where
  | step {m m' : Machine} (h : Exec.step m = .ok () m') : Hosted m m'
  | edit {m m' : Machine} (hCaches : m'.cpu.caches = m.cpu.caches) (hDevices : m'.SparesCaches) :
    Hosted m m'

/-- Any number of steps and edits. -/
def HostedRuns : Machine → Machine → Prop := Relation.ReflTransGen Hosted

/-- Changes of interrupt lines are edits. -/
theorem Next.hosted (h : m.Next m') (hDevices : m.SparesCaches) : m.Hosted m' := by
  cases h with
  | step h => exact .step h
  | raise n | lower n => exact .edit rfl hDevices

theorem Hosted.sparesCaches (h : m.Hosted m') (hm : m.SparesCaches) : m'.SparesCaches := by
  cases h with
  | step h =>
    rw [SparesCaches, (Next.step h).devices_eq]
    exact hm
  | edit _ hDevices => exact hDevices

theorem Hosted.segmented (h : m.Hosted m') (hDevices : m.SparesCaches) (hm : m.cpu.Segmented) :
    m'.cpu.Segmented := by
  cases h with
  | step h => exact Exec.segmented_step hDevices hm h
  | edit hCaches => exact hm.of_caches_eq hCaches

theorem HostedRuns.segmented (h : m.HostedRuns m') (hDevices : m.SparesCaches)
    (hm : m.cpu.Segmented) : m'.SparesCaches ∧ m'.cpu.Segmented := by
  induction h with
  | refl => exact ⟨hDevices, hm⟩
  | tail _ hLast ih => exact ⟨hLast.sparesCaches ih.1, hLast.segmented ih.1 ih.2⟩

theorem Loaded.segmented (h : m.Loaded) : m.cpu.Segmented := by
  obtain ⟨s, devices, window, log, image, h⟩ := h
  obtain ⟨-, rfl⟩ := loadCom_eq_ok.1 h
  have hReset : (Cpu.reset s.model).Segmented := by
    intro k
    have hCache : (Cpu.reset s.model).caches.get k = .realMode 0 := by
      cases s.model <;> cases k <;> rfl
    rw [hCache]
    exact Descriptor.belongsIn_realMode 0 k
  have hReal {c : Cpu} (hc : c.Segmented) (k : SegReg) (selector : UInt16) :
      (c.loadRealSegment k selector).Segmented :=
    hc.load (Descriptor.belongsIn_realMode selector k) rfl
  have hSegments := hReal (hReal (hReal (hReal hReset .cs programStart.segment) .ds
    programStart.segment) .es programStart.segment) .ss programStart.segment
  exact hSegments.of_caches_eq rfl

/-- **The caches are well formed in every state of a run**, whatever a host does between the steps
without editing them: SS holds a writable data segment, CS a code segment or what real mode makes of
a selector, the others something readable or the null descriptor. In protected mode the null
descriptor refuses every access. -/
theorem caches_well_formed (hLoaded : m₀.Loaded) (hDevices : m₀.SparesCaches)
    (hRun : m₀.HostedRuns m) :
    m.cpu.Segmented ∧ ∀ l : Location, m.cpu.protectedMode = true →
      m.cpu.caches.get l.seg = {} → ∀ w v,
        Exec.readMem l w m = .error (.fault (.generalProtection 0)) m ∧
        Exec.writeMem l w v m = .error (.fault (.generalProtection 0)) m := by
  have hm := (hRun.segmented hDevices hLoaded.segmented).2
  refine ⟨hm, fun l hp hNull w v => ?_⟩
  have hFault : Cpu.accessFault l.seg = .generalProtection 0 := if_neg (hm.ne_ss_of_null hNull)
  have hRefused := Cpu.Segmented.mayAccess_of_null hp hNull w.bytes
  rw [Exec.readMem_eq, Exec.writeMem_eq, hRefused, hRefused, hFault]
  exact ⟨rfl, rfl⟩

/-- An empty program on a model with protected mode. -/
def blankMachine : Machine :=
  ((ofSettings { model := .i80386 }).placeImage [] programStart).setUpSegments programStart.segment

/-- The host continues at an address of the graphics window, where a device provides the code and a
little memory the stack. -/
def guided (m : Machine) (opcode : UInt8) (control : UInt32) (sp : UInt32) : Machine :=
  { m with
    cpu :=
      { m.cpu with
        regs :=
          { m.cpu.regs.writeControl .zero control with
            eip := Bus.windowStart - m.cpu.segmentBase .cs
            gprs := { m.cpu.regs.gprs with esp := sp } } }
    bus := { ram := ⟨⟨#[0, 0]⟩⟩, window := some ⟨fun _ _ => opcode⟩ } }

/-- POP SS in real mode, from memory that is not installed. -/
def stackMoved : Machine := Exec.after Exec.step (guided blankMachine 0x17 0 0)

/-- POP DS in protected mode, from memory that holds a null selector. -/
def dataCleared : Machine := Exec.after Exec.step (guided stackMoved 0x1F Cpu.protectionBit 0x10)

theorem hosted_guided (hDevices : m.SparesCaches) (opcode : UInt8) (control sp : UInt32) :
    m.Hosted (guided m opcode control sp) :=
  .edit rfl hDevices

theorem hosted_step (h : (Exec.ending? Exec.step m).isSome = true) :
    m.Hosted (Exec.after Exec.step m) :=
  .step (Exec.ok_after h)

theorem loaded_blankMachine : blankMachine.Loaded := by
  refine ⟨{ model := .i80386 }, [], none, none, [], loadCom_eq_ok.2 ⟨?_, rfl⟩⟩
  have hSize : (ofSettings { model := .i80386 }).bus.ram.size = 0x110000 := Ram.size_zeros _
  change _ ≤ (ofSettings { model := .i80386 }).bus.ram.size
  rw [hSize]
  decide

theorem caches_well_formed_cleared :
    blankMachine.Loaded ∧ blankMachine.SparesCaches ∧ blankMachine.HostedRuns dataCleared ∧
      dataCleared.cpu.caches.ss = .realMode 0xFFFF ∧ dataCleared.cpu.Segmented ∧
      Exec.readMem (.of .ds 0 false) .byte dataCleared =
        .error (.fault (.generalProtection 0)) dataCleared := by
  have hSpares : blankMachine.SparesCaches := fun _ hd => absurd hd List.not_mem_nil
  have hMoved : blankMachine.HostedRuns stackMoved :=
    (Relation.ReflTransGen.single (hosted_guided hSpares 0x17 0 0)).tail
      (hosted_step (by decide +kernel))
  have hSparesMoved := (hMoved.segmented hSpares loaded_blankMachine.segmented).1
  have hRun : blankMachine.HostedRuns dataCleared :=
    (hMoved.tail (hosted_guided hSparesMoved 0x1F Cpu.protectionBit 0x10)).tail
      (hosted_step (by decide +kernel))
  obtain ⟨hSegmented, hNull⟩ := caches_well_formed loaded_blankMachine hSpares hRun
  exact ⟨loaded_blankMachine, hSpares, hRun, by decide +kernel, hSegmented,
    (hNull (.of .ds 0 false) (by decide +kernel) (by decide +kernel) .byte 0).1⟩

end Machine

end X86
