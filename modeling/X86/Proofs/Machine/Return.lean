import X86.Proofs.Exec.Frame
import X86.Proofs.Machine.Interrupt

/-!
# Returning from a real mode handler

A handler that returns at once gives the processor back as it was. The flags take a detour through
memory: the image that is pushed sets the top bits on the narrow models and clears two of the
extended flags, and the load keeps what the image cannot carry.

* `Interrupted`: the handler of an interrupt runs, with its frame on the stack.
* `Cpu.loadFlags_image`: what loading the image of the flags brings back.
* `Exec.interrupt_apply`: the handler of a vector is entered.
* `Exec.iret_of_interrupted`: IRET takes the handler back.
* `Exec.iret_interrupt`: **in real mode IRET undoes an interrupt, but for the bytes of the frame.**
-/

namespace X86

/-- The low 16 bits survive a push, and a pop. -/
theorem bitAt_truncate {w : Width} (hw : w ≠ .byte) (v : UInt32) {n : Nat} (hn : n < 16) :
    bitAt (w.truncate v) n = bitAt v n := by
  cases w with
  | byte => exact absurd rfl hw
  | word =>
    rw [bitAt, bitAt, Width.toNat_truncate, show Width.word.values = 2 ^ 16 from rfl,
      Nat.testBit_mod_two_pow]
    simp [hn]
  | dword => rw [Width.truncate_dword]

/-- A word survives a push, and a pop. -/
theorem truncate_word {w : Width} (hw : w ≠ .byte) (v : UInt16) :
    w.truncate v.toUInt32 = v.toUInt32 := by
  have hv : v.toUInt32.toNat < 0x10000 := by
    rw [UInt16.toNat_toUInt32]
    exact v.toNat_lt
  refine Width.truncate_eq_self (Nat.lt_of_lt_of_le hv ?_)
  cases w with
  | byte => exact absurd rfl hw
  | word | dword => decide

/-- Exactly the narrow models read the top four bits of the flags as ones. -/
theorem Model.flagsHighNibbleSet_eq (m : Model) :
    m.features.flagsHighNibbleSet = !m.features.wideRegisters := by
  cases m <;> rfl

namespace Cpu

variable {c c' : Cpu}

/-! ### The flags in a frame -/

/-- The flags that an image carries. -/
def imageFlags (f : Flags) : Flags := { f with resume := false, vm := false }

theorem bitAt_flagsImage_of_lt (c : Cpu) {n : Nat} (hn : n < 12) :
    bitAt c.flagsImage n = bitAt (imageFlags c.regs.flags).toUInt32 n := by
  have hNibble : bitAt 0xF000 n = false := by
    have hAll : ∀ n < 12, bitAt 0xF000 n = false := by decide
    exact hAll n hn
  have hLow : bitAt 0xFFFF n = true := by
    have hAll : ∀ n < 12, bitAt 0xFFFF n = true := by decide
    exact hAll n hn
  rw [flagsImage, imageFlags]
  cases c.features.flagsHighNibbleSet <;> cases c.features.wideRegisters <;>
    simp [bitAt_and, bitAt_or, hNibble, hLow]

theorem flagsImage_of_wide (h : c.features.wideRegisters = true) :
    c.flagsImage = (imageFlags c.regs.flags).toUInt32 := by
  have hNibble : c.features.flagsHighNibbleSet = false := by
    rw [features, Model.flagsHighNibbleSet_eq]
    exact congrArg not h
  rw [flagsImage, h, hNibble]
  rfl

/-- An image gives the low flags back. -/
theorem load16_of_image {f : Flags} {v : UInt32} (g : Flags)
    (h : ∀ n < 12, bitAt v n = bitAt (imageFlags f).toUInt32 n) :
    g.load16 v =
      { f with
        iopl := Ring.ofLowBits (v.toNat / 0x1000), nestedTask := bitAt v 14
        resume := g.resume, vm := g.vm, vif := g.vif, vip := g.vip } := by
  have hImage : Flags.ofUInt32 (imageFlags f).toUInt32 = imageFlags f :=
    Flags.ofUInt32_toUInt32 _
  have hBit {n : Nat} (hn : n < 12) (flag : Flags → Bool)
      (hFlag : flag (Flags.ofUInt32 (imageFlags f).toUInt32) =
        bitAt (imageFlags f).toUInt32 n) : bitAt v n = flag (imageFlags f) := by
    rw [h n hn, ← hFlag, hImage]
  rw [Flags.load16]
  congr 1
  · exact hBit (n := 0) (by decide) Flags.carry rfl
  · exact hBit (n := 2) (by decide) Flags.parity rfl
  · exact hBit (n := 4) (by decide) Flags.adjust rfl
  · exact hBit (n := 6) (by decide) Flags.zero rfl
  · exact hBit (n := 7) (by decide) Flags.sign rfl
  · exact hBit (n := 8) (by decide) Flags.trap rfl
  · exact hBit (n := 9) (by decide) Flags.interrupt rfl
  · exact hBit (n := 10) (by decide) Flags.direction rfl
  · exact hBit (n := 11) (by decide) Flags.overflow rfl

/-- An image of a wide model holds the I/O privilege level. -/
theorem iopl_of_image (hWide : c.features.wideRegisters = true) {w : Width} (hw : w ≠ .byte) :
    Ring.ofLowBits ((w.truncate c.flagsImage).toNat / 0x1000) = c.regs.flags.iopl := by
  have hSame := congrArg Flags.iopl (Flags.ofUInt32_toUInt32 (imageFlags c.regs.flags))
  rw [flagsImage_of_wide hWide, ← show (imageFlags c.regs.flags).iopl = c.regs.flags.iopl from
    rfl, ← hSame]
  apply Fin.ext
  change (w.truncate _).toNat / 0x1000 % 4 = (UInt32.toNat _) / 0x1000 % 4
  cases w with
  | byte => exact absurd rfl hw
  | word =>
    rw [Width.toNat_truncate, Width.values]
    omega
  | dword => rw [Width.truncate_dword]

/-- An image of a wide model holds the task bit. -/
theorem nestedTask_of_image (hWide : c.features.wideRegisters = true) {w : Width}
    (hw : w ≠ .byte) : bitAt (w.truncate c.flagsImage) 14 = c.regs.flags.nestedTask := by
  rw [bitAt_truncate hw _ (by decide), flagsImage_of_wide hWide]
  exact congrArg Flags.nestedTask (Flags.ofUInt32_toUInt32 (imageFlags c.regs.flags))

/-- No image holds the resume bit. -/
theorem resume_of_image (c : Cpu) : bitAt c.flagsImage 16 = false := by
  cases hWide : c.features.wideRegisters with
  | true =>
    rw [flagsImage_of_wide hWide]
    exact congrArg Flags.resume (Flags.ofUInt32_toUInt32 (imageFlags c.regs.flags))
  | false =>
    rw [flagsImage, hWide]
    exact (bitAt_and _ _ _).trans (Bool.and_eq_false_iff.2 (.inr (by decide)))

/-- **Loading the image of other flags brings these flags back.** Two of them no image carries
everywhere: the task bit stays as it is on the narrow models, and the resume bit is cleared by an
image of 32 bits. Outside ring 0 the interrupt flag must be the same, since the load may keep it. -/
theorem loadFlags_image {trap interrupt nestedTask resume : Bool} {w : Width} (hw : w ≠ .byte)
    (hModel : c'.model = c.model)
    (hInterrupt : interrupt = c.regs.flags.interrupt ∨ c'.cpl = .zero)
    (hFlags : c'.regs.flags = { c.regs.flags with trap, interrupt, nestedTask, resume }) :
    c'.loadFlags (w.truncate c.flagsImage) w =
      c'.setFlags
        { c.regs.flags with
          nestedTask := if c.features.wideRegisters then c.regs.flags.nestedTask else nestedTask
          resume := if w = .dword then false else resume } := by
  have hLow : ∀ n < 12, bitAt (w.truncate c.flagsImage) n =
      bitAt (imageFlags c.regs.flags).toUInt32 n := fun n hn => by
    rw [bitAt_truncate hw _ (by omega), bitAt_flagsImage_of_lt c hn]
  have hFeatures : c'.features = c.features := congrArg Model.features hModel
  have hLoad : (if w = .dword then c'.regs.flags.load32 (w.truncate c.flagsImage)
      else c'.regs.flags.load16 (w.truncate c.flagsImage)) =
      { c.regs.flags with
        iopl := Ring.ofLowBits ((w.truncate c.flagsImage).toNat / 0x1000)
        nestedTask := bitAt (w.truncate c.flagsImage) 14
        resume := if w = .dword then false else resume
        vm := if w = .dword then bitAt (w.truncate c.flagsImage) 17 else c.regs.flags.vm
        vif := if w = .dword then bitAt (w.truncate c.flagsImage) 19 else c.regs.flags.vif
        vip := if w = .dword then bitAt (w.truncate c.flagsImage) 20 else c.regs.flags.vip } := by
    have hLoad16 := load16_of_image c'.regs.flags hLow
    rw [Flags.load32, hLoad16, hFlags]
    cases w with
    | byte => exact absurd rfl hw
    | word => rfl
    | dword =>
      rw [if_pos rfl, if_pos rfl, if_pos rfl, if_pos rfl, if_pos rfl, Width.truncate_dword,
        resume_of_image]
  have hKept : (if (c'.protectedMode && decide (c.regs.flags.iopl < c'.cpl)) = true then interrupt
      else c.regs.flags.interrupt) = c.regs.flags.interrupt := by
    rcases hInterrupt with hSame | hRing
    · rw [hSame, ite_self]
    · have hLevel : ¬ c.regs.flags.iopl < Ring.zero := Nat.not_lt_zero _
      rw [hRing, decide_eq_false hLevel, Bool.and_false, if_neg Bool.false_ne_true]
  rw [loadFlags, hLoad, permittedFlags, hFeatures, hFlags, hKept]
  cases hWide : c.features.wideRegisters with
  | false => rfl
  | true =>
    -- only the wide models take the level and the task bit from the image
    rw [iopl_of_image hWide hw, nestedTask_of_image hWide hw, ite_self]
    rfl

/-- The processor at the start of the handler at `target`. -/
def entered (c : Cpu) (target : FarPointer) : Cpu :=
  (((c.lowered 6).setFlags (realHandlerFlags c.regs.flags)).loadRealSegment .cs
    target.segment).jump target.offset.toUInt32

theorem entered_eq (c : Cpu) (target : FarPointer) :
    c.entered target =
      (((c.withEsp (c.lowered 6).regs.gprs.esp).setFlags
        (realHandlerFlags c.regs.flags)).loadRealSegment .cs target.segment).jump
          target.offset.toUInt32 := by
  have hLowered : c.lowered 6 = c.withEsp (c.lowered 6).regs.gprs.esp := setStackPointer_eq _ _
  rw [entered, ← hLowered]

end Cpu

/-- The machine runs the handler of an interrupt of `c`, with the frame on the stack. -/
structure Interrupted (c : Cpu) (m : Machine) : Prop where
  model : m.cpu.model = c.model
  control : m.cpu.regs.control = c.regs.control
  stack : (c.lowered 6).SameStack m.cpu
  flags : m.cpu.regs.flags = Cpu.realHandlerFlags c.regs.flags
  frame : Cpu.Holds m.bus .word c c.returnFrame

namespace Exec

variable {c : Cpu} {m : Machine}

/-- **In real mode the handler of a vector is entered, with a frame on the stack.** -/
theorem interrupt_apply {vector : UInt8} (errorCode : Option UInt16) (software : Bool)
    (hReal : m.cpu.protectedMode = false)
    (hTable : 4 * vector.toNat + 3 ≤ m.cpu.idtr.limit.toNat)
    (hBacked : ∀ k < 6, m.bus.Backed (m.cpu.stackByte k)) :
    ∃ b, interrupt vector errorCode software m =
        .ok () { m with
          cpu := m.cpu.entered (m.bus.readVector m.cpu.idtr.base vector)
          bus := b } ∧
      Bus.Overwrites (m.cpu.frameBytes m.bus 6) m.bus b ∧
      Cpu.Holds b .word m.cpu m.cpu.returnFrame := by
  obtain ⟨b, hPush, hOver, hHolds⟩ := pushList_apply (w := .word) m.cpu.returnFrame
    (Cpu.takes_of_real hReal _ _) (show 2 * 3 ≤ 0x10000 by decide) hBacked
  refine ⟨b, ?_, hOver, hHolds⟩
  rw [interrupt_of_real hReal, interruptReal_eq, if_neg (by omega), bind_of_ok hPush,
    enterVector_apply, Cpu.entered_eq]
  have hLowered : m.cpu.lowered (Width.word.bytes * m.cpu.returnFrame.length) =
      m.cpu.withEsp (m.cpu.lowered 6).regs.gprs.esp := Cpu.setStackPointer_eq _ _
  rw [hLowered]
  rfl

theorem interrupted_of_entered (target : FarPointer) {b : Bus}
    (hHolds : Cpu.Holds b .word m.cpu m.cpu.returnFrame) :
    Interrupted m.cpu { m with cpu := m.cpu.entered target, bus := b } where
  model := by rw [Cpu.entered_eq]; rfl
  control := by rw [Cpu.entered_eq]; rfl
  stack := ⟨rfl, rfl⟩
  flags := rfl
  frame := hHolds

theorem iret_of_popList {w : Width} {eip cs f : UInt32} {m₁ : Machine}
    (h : popList w 3 [] m = .ok [f, cs, eip] m₁) :
    iret w m = (do jumpFar cs.toUInt16 eip; modifyCpu (·.loadFlags f w)) m₁ := by
  simp only [popList, bind_eq_ok] at h
  obtain ⟨_, _, hEip, _, _, hCs, _, _, hFlags, hEnd⟩ := h
  cases hEnd
  exact (bind_of_ok hEip).trans ((bind_of_ok hCs).trans (bind_of_ok hFlags))

/-- **IRET takes the handler of an interrupt back, whatever it has done to the other registers.** -/
theorem iret_of_interrupted (hReal : c.protectedMode = false)
    (hCs : c.caches.cs = .realMode (c.regs.selector .cs)) (hEip : c.regs.eip ≤ 0xFFFF)
    (h : Interrupted c m) :
    iret .word m = .ok () (m.withCpu fun c' => (c'.restore c.snapshot).setFlags c.regs.flags) := by
  have hReal₁ : m.cpu.protectedMode = false := by
    rw [← hReal, Cpu.protectedMode, Cpu.protectedMode, Cpu.cr0, Cpu.cr0, Registers.readControl,
      Registers.readControl, h.control]
  have hEsp : m.cpu.setStackPointer c.stackPointer = m.cpu.withEsp c.regs.gprs.esp :=
    Cpu.setStackPointer_of_sameStack h.stack
  have hPops : popList .word 3 [] m =
      .ok [Width.word.truncate c.flagsImage,
        Width.word.truncate (c.regs.selector .cs).toUInt32, Width.word.truncate c.regs.eip]
        (m.withCpu (·.withEsp c.regs.gprs.esp)) := by
    have hLength : Width.word.bytes * c.returnFrame.length = 6 := rfl
    have hStack : (c.lowered (Width.word.bytes * c.returnFrame.length)).SameStack m.cpu := by
      rw [hLength]
      exact h.stack
    have hPopped := popList_of_holds (hReal₁.trans hReal.symm) (Cpu.takes_of_real hReal _ _) hStack
      h.frame []
    simp only [Machine.withCpu, hEsp] at hPopped
    exact hPopped
  have hSelector : (Width.word.truncate (c.regs.selector .cs).toUInt32).toUInt16 =
      c.regs.selector .cs := by
    rw [truncate_word (by decide), UInt16.toUInt16_toUInt32]
  have hOffset : Width.word.truncate c.regs.eip = c.regs.eip :=
    Width.truncate_eq_self (Nat.lt_succ_of_le (UInt32.le_iff_toNat_le.1 hEip))
  have hJump (c₁ : Cpu) :
      (c₁.loadRealSegment .cs (c.regs.selector .cs)).jump c.regs.eip =
        (c₁.loadRealSegment .cs (c.regs.selector .cs)).setEip c.regs.eip :=
    congrArg (Cpu.setEip _) hOffset
  have hReal₂ : (m.withCpu (·.withEsp c.regs.gprs.esp)).cpu.protectedMode = false := hReal₁
  rw [iret_of_popList hPops, hSelector, hOffset, bind_of_ok (jumpFar_of_real hReal₂ _ _),
    modifyCpu_apply]
  have hRestore : ((m.cpu.withEsp c.regs.gprs.esp).loadRealSegment .cs
      (c.regs.selector .cs)).setEip c.regs.eip = m.cpu.restore c.snapshot := by
    rw [Cpu.restore, Cpu.snapshot, hCs]
    rfl
  have hFlags : (m.cpu.restore c.snapshot).loadFlags (Width.word.truncate c.flagsImage) .word =
      (m.cpu.restore c.snapshot).setFlags c.regs.flags := by
    have hRing : (m.cpu.restore c.snapshot).cpl = .zero := by
      rw [Cpu.cpl, show (m.cpu.restore c.snapshot).protectedMode = false from hReal₁]
      rfl
    have hLoad : (m.cpu.restore c.snapshot).loadFlags (Width.word.truncate c.flagsImage) .word =
        (m.cpu.restore c.snapshot).setFlags
          { c.regs.flags with
            nestedTask :=
              if c.features.wideRegisters then c.regs.flags.nestedTask else c.regs.flags.nestedTask
            resume := c.regs.flags.resume } :=
      Cpu.loadFlags_image (by decide) h.model (.inr hRing) h.flags
    rw [ite_self] at hLoad
    exact hLoad
  simp only [Machine.withCpu, hJump, hRestore, hFlags]

/-- **In real mode IRET undoes an interrupt, but for the bytes of the frame.** -/
theorem iret_interrupt {vector : UInt8} (errorCode : Option UInt16) (software : Bool)
    (hReal : m.cpu.protectedMode = false)
    (hCs : m.cpu.caches.cs = .realMode (m.cpu.regs.selector .cs))
    (hEip : m.cpu.regs.eip ≤ 0xFFFF)
    (hTable : 4 * vector.toNat + 3 ≤ m.cpu.idtr.limit.toNat)
    (hBacked : ∀ k < 6, m.bus.Backed (m.cpu.stackByte k)) :
    ∃ m₁ b, interrupt vector errorCode software m = .ok () m₁ ∧
      iret .word m₁ = .ok () { m with bus := b } ∧
      Bus.Overwrites (m.cpu.frameBytes m.bus 6) m.bus b := by
  obtain ⟨b, hEnter, hOver, hHolds⟩ := interrupt_apply errorCode software hReal hTable hBacked
  refine ⟨_, b, hEnter, ?_, hOver⟩
  rw [iret_of_interrupted hReal hCs hEip (interrupted_of_entered _ hHolds), Machine.withCpu]
  rw [Cpu.entered_eq]
  rfl

/-- A machine in real mode whose first push wraps, with flags that no image carries. -/
def wrappingMachine : Machine :=
  { cpu :=
      { model := .i80386
        regs :=
          { eip := 0x1234
            flags :=
              { interrupt := true, trap := true, iopl := 3, nestedTask := true, resume := true
                vif := true } } }
    bus := .ofSize 0 }

theorem iret_interrupt_wrapping :
    ∃ m₁ b, interrupt 0x0D (some 0x50) false wrappingMachine = .ok () m₁ ∧
      iret .word m₁ = .ok () { wrappingMachine with bus := b } ∧
      Bus.Overwrites (wrappingMachine.cpu.frameBytes wrappingMachine.bus 6) wrappingMachine.bus b :=
  iret_interrupt (some 0x50) false (by decide) rfl (by decide) (by decide) fun k hk => by
    have hSize : wrappingMachine.bus.ram.size = 0x10000 := Ram.size_zeros _
    have hAddress : ∀ k < 6,
        (wrappingMachine.bus.physical (wrappingMachine.cpu.stackByte k)).toNat < 0x10000 := by
      decide
    exact ⟨Bus.windowAt_eq_none rfl _, by rw [hSize]; exact hAddress k hk⟩

end Exec

end X86
