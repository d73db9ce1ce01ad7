import X86.Proofs.Machine.Return
import X86.Proofs.Machine.SegmentLoad

/-!
# Returning through a gate

In protected mode the way into a handler loads a code segment from the global table, and so does the
way back. The handler's table entry is marked on the way in; it is another entry than that of the
interrupted code, or the mark is there already.

* `Cpu.codeEntry_congr`, `Cpu.physical_entry_ne`: entries of the global table.
* `Machine.Returnable`: what the interrupted code must be like.
* `Passed`: the handler behind a gate runs, with its frame on the stack.
* `Exec.iret_of_passed`: IRET takes the handler back.
* `Exec.iret_gate`: **in protected mode IRET undoes an interrupt, but for the resume bit, the bytes
  of the frame and a mark in the table; a narrow model does not get the task bit back.**
-/

namespace X86

/-! ### Table entries -/

namespace Cpu

variable {c c' : Cpu} {b b' : Bus} {selector selector' : UInt16} {entry entry' : UInt32}
  {d d' : Descriptor}

theorem codeEntry_eq_ok :
    c.codeEntry b selector = .ok (entry, d) ↔
      selectorIndex selector ≠ 0 ∧ c.lookupSegment b .cs selector = .ok (entry, d) := by
  rw [codeEntry]
  by_cases hNull : selectorIndex selector = 0
  · simp [hNull]
  · simp [hNull]

theorem codeEntry_congr (hTable : c'.gdtr = c.gdtr)
    (hBytes : ∀ i < 8, b'.read8 (entry + UInt32.ofNat i) = b.read8 (entry + UInt32.ofNat i))
    (h : c.codeEntry b selector = .ok (entry, d)) :
    c'.codeEntry b' selector = .ok (entry, d) := by
  rw [codeEntry_eq_ok, Exec.lookupSegment_eq_ok] at h ⊢
  obtain ⟨hNull, hLow, hEntry, hBytes', hRest⟩ := h
  refine ⟨hNull, hLow, by rw [hTable, hEntry], ?_, hRest⟩
  rw [Descriptor.ofBytes_congr hBytes, hBytes']

theorem entry_eq (h : c.codeEntry b selector = .ok (entry, d)) :
    selector.toNat % 8 = 0 ∧ entry = c.gdtr.base + selector.toUInt32 := by
  obtain ⟨-, hLookup⟩ := codeEntry_eq_ok.1 h
  obtain ⟨hLow, hEntry, -⟩ := Exec.lookupSegment_eq_ok.1 hLookup
  rw [TableRegister.entryAddress?] at hEntry
  split at hEntry
  · cases hEntry
  · cases hEntry
    exact ⟨and_seven_eq_zero.1 hLow, rfl⟩

/-- The entries of two selectors never meet, whatever the A20 gate does. -/
theorem physical_entry_ne (h : c.codeEntry b selector = .ok (entry, d))
    (h' : c.codeEntry b selector' = .ok (entry', d')) (hNe : selector ≠ selector') {i j : Nat}
    (hi : i < 8) (hj : j < 8) :
    b.physical (entry + UInt32.ofNat i) ≠ b.physical (entry' + UInt32.ofNat j) := by
  obtain ⟨hLow, rfl⟩ := entry_eq h
  obtain ⟨hLow', rfl⟩ := entry_eq h'
  have hBase := c.gdtr.base.toNat_lt
  have hSelector := selector.toNat_lt
  have hSelector' := selector'.toNat_lt
  have hApart : selector.toNat ≠ selector'.toNat := fun hSame => hNe (UInt16.toNat_inj.1 hSame)
  refine Bus.physical_ne ?_
  rw [UInt32.toNat_add, UInt32.toNat_add, UInt32.toNat_add, UInt32.toNat_add,
    UInt32.toNat_ofNat', UInt32.toNat_ofNat', UInt16.toNat_toUInt32, UInt16.toNat_toUInt32]
  omega

end Cpu

/-! ### The way in -/

/-- What ring 0 code must be like for a handler behind the gate to return to it: its segment is that
of a table entry which has been loaded before, its offset fits in the frame and in the segment, and
the frame goes to installed memory apart from that entry. -/
structure Machine.Returnable (m : Machine) (g : OpenGate) (entry : UInt32) : Prop where
  unhooked : m.bus.window = none
  code : m.cpu.codeEntry m.bus (m.cpu.regs.selector .cs) = .ok (entry, m.cpu.caches.cs)
  accessed : m.cpu.caches.cs.isAccessed = true
  fits : m.cpu.regs.eip.toNat < g.width.values
  inside : m.cpu.code32 = false → m.cpu.regs.eip ≤ 0xFFFF
  backed : ∀ k < g.width.bytes * 3, m.bus.Backed (m.cpu.stackByte k)
  apart : ∀ k < g.width.bytes * 3, ∀ i < 8,
    m.bus.physical (m.cpu.stackByte k) ≠ m.bus.physical (entry + UInt32.ofNat i)

/-- The handler behind the gate runs, with its frame on the stack. Its code segment is that of the
table entry at `handler`, with the descriptor `d`. -/
structure Passed (m : Machine) (g : OpenGate) (handler : UInt32) (d : Descriptor) (m₁ : Machine) :
    Prop where
  rest : m₁ = { m with cpu := m₁.cpu, bus := m₁.bus, log := m₁.log }
  cpu : m₁.cpu = ((m.cpu.atEntry g.selector g.offset d).lowered (g.width.bytes * 3)).setFlags
    (Cpu.handlerFlags g.masks m.cpu.regs.flags)
  takes : (m.cpu.atEntry g.selector g.offset d).Takes g.width 3
  holds : Cpu.Holds m₁.bus g.width (m.cpu.atEntry g.selector g.offset d) m.cpu.returnFrame
  frame : Bus.Overwrites (m.cpu.frameBytes m.bus (g.width.bytes * 3))
    (Exec.markEntry m handler d).bus m₁.bus

namespace Exec

variable {m m₁ : Machine} {g : OpenGate} {entry handler : UInt32} {d : Descriptor}
  {vector : UInt8} {software : Bool}

/-- A far jump goes no further than the processor, the table and the log. -/
theorem arrived_eq (m : Machine) (selector : UInt16) (eip entry : UInt32) (d : Descriptor) :
    ∃ cpu bus log, arrived m selector eip entry d = { m with cpu, bus, log } := by
  rw [arrived, markEntry]
  split <;> exact ⟨_, _, _, rfl⟩

theorem passed_of_interrupt (hp : m.cpu.protectedMode = true) (h : m.Returnable g entry)
    (hGate : m.cpu.openGate m.bus vector software = .ok g)
    (hEnter : interrupt vector none software m = .ok () m₁) :
    ∃ handler d, m.cpu.codeEntry m.bus g.selector = .ok (handler, d) ∧
      Passed m g handler d m₁ := by
  rw [interrupt_of_protected hp, interruptProtected_eq_ok hp] at hEnter
  obtain ⟨g', handler, d, m₂, hGate', hHandler, hPush, rfl⟩ := hEnter
  cases hGate.symm.trans hGate'
  have hFrame : m.cpu.gateFrame none = m.cpu.returnFrame := List.append_nil _
  rw [hFrame] at hPush
  let start := arrived m g.selector g.offset handler d
  have hCpu : start.cpu = m.cpu.atEntry g.selector g.offset d := cpu_arrived ..
  have hMarked : Bus.Overwrites (· = m.bus.physical (handler + 5)) m.bus start.bus :=
    overwrites_markEntry h.unhooked handler d
  -- the jump moves neither the stack nor its bytes
  have hByte (k : Nat) : start.cpu.stackByte k = m.cpu.stackByte k := by
    rw [hCpu]
    rfl
  have hTakes : start.cpu.Takes g.width 3 := takes_of_pushList hPush
  obtain ⟨b, hPush', hOver, hHolds⟩ := pushList_apply (m := start) m.cpu.returnFrame hTakes
    g.frame_le fun k hk => by
      rw [hByte]
      exact hMarked.backed (h.backed k hk)
  cases hPush.symm.trans hPush'
  obtain ⟨c, bus, log, hStart⟩ : ∃ c bus log, start = { m with cpu := c, bus := bus, log := log } :=
    arrived_eq m g.selector g.offset handler d
  refine ⟨handler, d, hHandler, ?_, ?_, ?_, ?_, ?_⟩
  · rw [hStart]
    rfl
  · change (start.cpu.lowered _).setFlags _ = _
    rw [hCpu, show ((m.cpu.atEntry g.selector g.offset d).lowered _).regs.flags = _ from
      Cpu.flags_lowered _ _]
    rfl
  · rw [← hCpu]
    exact hTakes
  · rw [← hCpu]
    exact hHolds
  · refine hOver.mono fun p hp => ?_
    obtain ⟨k, hk, rfl⟩ := hp
    exact ⟨k, hk, by rw [hMarked.physical_eq, hByte]⟩

/-- The entry of the interrupted code is as it was. -/
theorem read8_of_passed (h : m.Returnable g entry) (hPassed : Passed m g handler d m₁)
    (hHandler : m.cpu.codeEntry m.bus g.selector = .ok (handler, d)) {i : Nat} (hi : i < 8) :
    m₁.bus.read8 (entry + UInt32.ofNat i) = m.bus.read8 (entry + UInt32.ofNat i) := by
  have hMarked := overwrites_markEntry h.unhooked handler d
  have hOutside : ¬ m.cpu.frameBytes m.bus (g.width.bytes * 3)
      ((markEntry m handler d).bus.physical (entry + UInt32.ofNat i)) := by
    rintro ⟨k, hk, hSame⟩
    rw [hMarked.physical_eq] at hSame
    exact h.apart k hk i hi hSame.symm
  rw [hPassed.frame.read8_eq hOutside]
  by_cases hSame : m.cpu.regs.selector .cs = g.selector
  · -- the handler's entry is that of the interrupted code, and marked already
    have hCode := h.code
    rw [hSame, hHandler] at hCode
    cases hCode
    rw [markEntry_of_isAccessed h.accessed]
  · exact hMarked.read8_eq (Cpu.physical_entry_ne h.code hHandler hSame hi (j := 5) (by decide))

/-! ### The way back -/

theorem setStackPointer_setFlags (c : Cpu) (f : Flags) (v : UInt32) :
    (c.setFlags f).setStackPointer v = (c.setStackPointer v).setFlags f := by
  rw [Cpu.setStackPointer_eq, Cpu.setStackPointer_eq c, Cpu.esp_setStackPointer,
    Cpu.esp_setStackPointer]
  rfl

theorem atEntry_back (h : m.Returnable g entry) (f : Flags) (selector : UInt16) (eip : UInt32)
    (d : Descriptor) :
    ((m.cpu.atEntry selector eip d).setFlags f).atEntry (m.cpu.regs.selector .cs) m.cpu.regs.eip
      m.cpu.caches.cs = m.cpu.setFlags f := by
  have hOffset : wrapOffset m.cpu.caches.cs.big m.cpu.regs.eip = m.cpu.regs.eip := by
    cases hBig : m.cpu.caches.cs.big with
    | true => exact Cpu.wrapOffset_true _
    | false =>
      exact Width.truncate_eq_self (w := .word)
        (Nat.lt_succ_of_le (UInt32.le_iff_toNat_le.1 (h.inside hBig)))
  rw [Cpu.atEntry, Descriptor.markAccessed_of_isAccessed h.accessed]
  change Cpu.setEip _ (wrapOffset m.cpu.caches.cs.big m.cpu.regs.eip) = _
  rw [hOffset]
  rfl

/-- The machine when the frame has been popped. -/
def popped (m : Machine) (g : OpenGate) (d : Descriptor) (m₁ : Machine) : Machine :=
  m₁.withCpu fun _ => (m.cpu.atEntry g.selector g.offset d).setFlags
    (Cpu.handlerFlags g.masks m.cpu.regs.flags)

theorem popList_of_passed (hPassed : Passed m g handler d m₁) :
    popList g.width 3 [] m₁ =
      .ok [g.width.truncate m.cpu.flagsImage,
        g.width.truncate (m.cpu.regs.selector .cs).toUInt32, g.width.truncate m.cpu.regs.eip]
        (popped m g d m₁) := by
  let c := m.cpu.atEntry g.selector g.offset d
  have hMode : m₁.cpu.protectedMode = c.protectedMode := by
    rw [hPassed.cpu]
    exact c.protectedMode_lowered _
  have hStack : (c.lowered (g.width.bytes * m.cpu.returnFrame.length)).SameStack m₁.cpu := by
    rw [hPassed.cpu]
    exact ⟨rfl, rfl⟩
  have hBack : m₁.cpu.setStackPointer c.stackPointer =
      c.setFlags (Cpu.handlerFlags g.masks m.cpu.regs.flags) := by
    rw [hPassed.cpu, setStackPointer_setFlags, Cpu.lowered, Cpu.setStackPointer_setStackPointer,
      Cpu.setStackPointer_self]
  rw [popped, ← hBack]
  exact popList_of_holds hMode hPassed.takes hStack hPassed.holds []

theorem jumpFar_popped (hp : m.cpu.protectedMode = true) (h : m.Returnable g entry)
    (hPassed : Passed m g handler d m₁)
    (hHandler : m.cpu.codeEntry m.bus g.selector = .ok (handler, d)) :
    ∃ log, jumpFar (m.cpu.regs.selector .cs) m.cpu.regs.eip (popped m g d m₁) =
      .ok () { m₁ with
        cpu := m.cpu.setFlags (Cpu.handlerFlags g.masks m.cpu.regs.flags), log := log } := by
  have hEntry : (popped m g d m₁).cpu.codeEntry m₁.bus (m.cpu.regs.selector .cs) =
      .ok (entry, m.cpu.caches.cs) :=
    Cpu.codeEntry_congr rfl (fun i hi => read8_of_passed h hPassed hHandler hi) h.code
  have hJump : jumpFar (m.cpu.regs.selector .cs) m.cpu.regs.eip (popped m g d m₁) =
      .ok () (arrived (popped m g d m₁) (m.cpu.regs.selector .cs) m.cpu.regs.eip entry
        m.cpu.caches.cs) := by
    have hp₂ : (popped m g d m₁).cpu.protectedMode = true := hp
    have hEntry₂ : (popped m g d m₁).cpu.codeEntry (popped m g d m₁).bus
        (m.cpu.regs.selector .cs) = .ok (entry, m.cpu.caches.cs) := hEntry
    rw [jumpFar_eq hp₂, hEntry₂]
  rw [hJump, arrived, markEntry_of_isAccessed h.accessed,
    ← atEntry_back h (Cpu.handlerFlags g.masks m.cpu.regs.flags) g.selector g.offset d]
  exact ⟨_, rfl⟩

/-- In ring 0 the image brings all flags back but two. -/
theorem loadFlags_of_passed (h : m.Returnable g entry) :
    (m.cpu.setFlags (Cpu.handlerFlags g.masks m.cpu.regs.flags)).loadFlags
        (g.width.truncate m.cpu.flagsImage) g.width =
      m.cpu.setFlags
        { m.cpu.regs.flags with
          resume := false
          nestedTask := m.cpu.features.wideRegisters && m.cpu.regs.flags.nestedTask } := by
  let c := m.cpu.setFlags (Cpu.handlerFlags g.masks m.cpu.regs.flags)
  have hRing : c.cpl = .zero :=
    Cpu.cpl_of_selector (lookupSegment_eq_ok.1 (Cpu.codeEntry_eq_ok.1 h.code).2).1 rfl
  have hLoad : c.loadFlags (g.width.truncate m.cpu.flagsImage) g.width =
      c.setFlags
        { m.cpu.regs.flags with
          nestedTask := if m.cpu.features.wideRegisters then m.cpu.regs.flags.nestedTask else false
          resume := if g.width = .dword then false else false } :=
    Cpu.loadFlags_image g.width_ne_byte rfl (.inr hRing) rfl
  refine hLoad.trans ?_
  cases m.cpu.features.wideRegisters <;> rw [ite_self] <;> rfl

/-- **IRET takes the handler behind a gate back.** -/
theorem iret_of_passed (hp : m.cpu.protectedMode = true) (h : m.Returnable g entry)
    (hPassed : Passed m g handler d m₁)
    (hHandler : m.cpu.codeEntry m.bus g.selector = .ok (handler, d)) :
    ∃ log, iret g.width m₁ =
      .ok () { m with
        cpu := m.cpu.setFlags { m.cpu.regs.flags with
          resume := false
          nestedTask := m.cpu.features.wideRegisters && m.cpu.regs.flags.nestedTask }
        bus := m₁.bus
        log := log } := by
  have hSelector : (g.width.truncate (m.cpu.regs.selector .cs).toUInt32).toUInt16 =
      m.cpu.regs.selector .cs := by
    rw [truncate_word g.width_ne_byte, UInt16.toUInt16_toUInt32]
  have hEip : g.width.truncate m.cpu.regs.eip = m.cpu.regs.eip := Width.truncate_eq_self h.fits
  obtain ⟨log, hJump⟩ := jumpFar_popped hp h hPassed hHandler
  have hFlags := loadFlags_of_passed h
  refine ⟨log, ?_⟩
  rw [iret_of_popList (popList_of_passed hPassed), hSelector, hEip, bind_of_ok hJump,
    modifyCpu_apply, Machine.withCpu, hFlags, hPassed.rest]

/-- What passing a gate changes in memory: the frame, and the mark in the handler's table entry. -/
theorem bus_of_passed (h : m.Returnable g entry) (hPassed : Passed m g handler d m₁)
    (hHandler : m.cpu.codeEntry m.bus g.selector = .ok (handler, d)) :
    Bus.Overwrites (fun p => m.cpu.frameBytes m.bus (g.width.bytes * 3) p ∨
        p = m.bus.physical (handler + 5)) m.bus m₁.bus ∧
      (¬ m.cpu.frameBytes m.bus (g.width.bytes * 3) (m.bus.physical (handler + 5)) →
        m₁.bus.read8 (handler + 5) = m.bus.read8 (handler + 5) ||| 1) := by
  have hMarked := overwrites_markEntry h.unhooked handler d
  refine ⟨(hMarked.mono fun _ => .inr).trans (hPassed.frame.mono fun _ => .inl), fun hApart => ?_⟩
  obtain ⟨-, -, hBytes, -⟩ := lookupSegment_eq_ok.1 (Cpu.codeEntry_eq_ok.1 hHandler).2
  rw [hPassed.frame.read8_eq, read8_markEntry h.unhooked hBytes]
  rwa [hMarked.physical_eq]

/-- **In protected mode IRET undoes an interrupt, but for the resume bit, which comes back clear, the
bytes of the frame, and the mark in the handler's table entry. A narrow model does not get the
task bit back either.** An interrupt that fails has changed no flag. -/
theorem iret_gate (hp : m.cpu.protectedMode = true) (vector : UInt8) (software : Bool) :
    (∀ g entry m₁, m.Returnable g entry → m.cpu.openGate m.bus vector software = .ok g →
      interrupt vector none software m = .ok () m₁ →
      ∃ b log handler d, iret g.width m₁ =
          .ok () { m with
            cpu := m.cpu.setFlags { m.cpu.regs.flags with
              resume := false
              nestedTask := m.cpu.features.wideRegisters && m.cpu.regs.flags.nestedTask }
            bus := b
            log := log } ∧
        m.cpu.codeEntry m.bus g.selector = .ok (handler, d) ∧
        Bus.Overwrites (fun p => m.cpu.frameBytes m.bus (g.width.bytes * 3) p ∨
          p = m.bus.physical (handler + 5)) m.bus b ∧
        (¬ m.cpu.frameBytes m.bus (g.width.bytes * 3) (m.bus.physical (handler + 5)) →
          b.read8 (handler + 5) = m.bus.read8 (handler + 5) ||| 1)) ∧
      ∀ errorCode stop m₁, interrupt vector errorCode software m = .error stop m₁ →
        m₁.cpu.regs.flags = m.cpu.regs.flags := by
  refine ⟨fun g entry m₁ h hGate hEnter => ?_, fun errorCode stop m₁ hFail => ?_⟩
  · obtain ⟨handler, d, hHandler, hPassed⟩ := passed_of_interrupt hp h hGate hEnter
    obtain ⟨log, hIret⟩ := iret_of_passed hp h hPassed hHandler
    obtain ⟨hBus, hMark⟩ := bus_of_passed h hPassed hHandler
    exact ⟨m₁.bus, log, handler, d, hIret, hHandler, hBus, hMark⟩
  · obtain ⟨o, e, -, hRefused⟩ := refused_of_error hFail
    exact hRefused.flags_eq

/-- Code with every flag set that entering a handler clears, on a stack of six bytes below its
table. -/
def taskMachine (model : Model) : Machine :=
  (tableMachine model (List.replicate 16 0 ++ gateTo 0x700)).withCpu fun c =>
    (c.withEsp 6).setFlags
      { trap := true, interrupt := true, nestedTask := true, resume := true, iopl := .ofLowBits 2 }

/-- The gate of vector 2. -/
def taskGate : OpenGate := { selector := 8, offset := 0x700, wide := false, masks := true }

theorem returnable_taskMachine (model : Model) : (taskMachine model).Returnable taskGate 32 where
  unhooked := rfl
  code := by
    cases model <;> rfl
  accessed := by cases model <;> decide
  fits := by cases model <;> decide
  inside := by cases model <;> decide
  backed := by
    have hAddress : ∀ k < 6, ((taskMachine model).bus.physical
        ((taskMachine model).cpu.stackByte k)).toNat < 40 := by cases model <;> decide +kernel
    exact fun k hk => ⟨Bus.windowAt_eq_none rfl _, hAddress k hk⟩
  apart := by cases model <;> decide +kernel

theorem openGate_taskMachine (model : Model) :
    (taskMachine model).cpu.openGate (taskMachine model).bus 2 false = .ok taskGate := by
  cases model <;> rfl

theorem iret_gate_wide :
    ∃ m₁ b log, interrupt 2 none false (taskMachine .i80386) = .ok () m₁ ∧
      iret .word m₁ = .ok () { taskMachine .i80386 with
        cpu := (taskMachine .i80386).cpu.setFlags
          { (taskMachine .i80386).cpu.regs.flags with resume := false }
        bus := b
        log := log } := by
  have hEnters : (ending? (interrupt 2 none false) (taskMachine .i80386)).isSome = true := by
    decide +kernel
  obtain ⟨⟨_, m₁⟩, hEnding⟩ := Option.isSome_iff_exists.1 hEnters
  have hEnter := ending?_eq_some.1 hEnding
  obtain ⟨b, log, handler, d, hIret, -⟩ := (iret_gate (m := taskMachine .i80386) rfl 2 false).1
    taskGate 32 m₁ (returnable_taskMachine _) (openGate_taskMachine _) hEnter
  exact ⟨m₁, b, log, hEnter, hIret⟩

/-- A narrow model in protected mode keeps the task bit that entering the handler has cleared. -/
theorem iret_gate_narrow :
    (taskMachine .i8086).cpu.protectedMode = true ∧ (taskMachine .i8086).cpu.cpl = .zero ∧
      (taskMachine .i8086).Returnable taskGate 32 ∧
      (taskMachine .i8086).cpu.openGate (taskMachine .i8086).bus 2 false = .ok taskGate ∧
      ∃ m₁ m₂, interrupt 2 none false (taskMachine .i8086) = .ok () m₁ ∧
        iret taskGate.width m₁ = .ok () m₂ ∧
        (taskMachine .i8086).cpu.regs.flags.nestedTask = true ∧
        m₂.cpu.regs.flags.nestedTask = false := by
  have hEnd : (ending? (interrupt 2 none false >>= fun _ => iret taskGate.width)
      (taskMachine .i8086)).map (·.2.cpu.regs.flags.nestedTask) = some false := by decide +kernel
  obtain ⟨⟨_, m₂⟩, hEnding, hTask⟩ := Option.map_eq_some_iff.1 hEnd
  obtain ⟨_, m₁, hEnter, hIret⟩ := bind_eq_ok.1 (ending?_eq_some.1 hEnding)
  exact ⟨rfl, by decide, returnable_taskMachine _, openGate_taskMachine _, m₁, m₂, hEnter, hIret,
    rfl, hTask⟩

end Exec

end X86
