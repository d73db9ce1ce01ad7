import X86.Proofs.Machine.StackPairs

/-!
# Stack frames of procedures

ENTER pushes the frame pointer of the caller, the frame pointers of the procedures around it and the
new one, and reserves room below. LEAVE looks at none of that: it takes the stack back to the frame
pointer, where the caller's frame pointer lies, and pops it.

* `Exec.enter_eq_ok`: ENTER pushes a list of values and moves two registers.
* `Saved`: the caller's frame pointer is saved at the new one.
* `Machine.KeepsFrame`: what the procedure has to leave alone.
* `Exec.leave_of_enter`: **LEAVE takes ENTER back, where protection is not switched on in between.**
* `Exec.leave_refused`: the stack segment of real mode can be too small for protected mode.
-/

namespace X86

open Exec

variable {w : Width} {c c' : Cpu}

/-! ### The frame pointer -/

/-- The frame pointer: BP or EBP. -/
def Cpu.framePointer (w : Width) (c : Cpu) : UInt32 := c.regs.read (stackView w .bp)

/-- Where the frame pointer points to on the stack. -/
def Cpu.framePlace (w : Width) (c : Cpu) : Location := .of .ss (c.framePointer w) c.stack32

/-- Stack pointers of a narrow stack have the same high half of ESP above them. -/
def Cpu.SameHigh (c c' : Cpu) : Prop :=
  c.stack32 = false → ∀ n, 16 ≤ n → n < 32 →
    bitAt c'.regs.gprs.esp n = bitAt c.regs.gprs.esp n

/-- What a procedure leaves alone between ENTER and LEAVE: the frame pointer, the stack segment, the
part of ESP above a narrow stack pointer, and the bytes at the frame pointer. -/
structure Machine.KeepsFrame (w : Width) (m m' : Machine) : Prop where
  pointer : m'.cpu.framePointer w = m.cpu.framePointer w
  segment : m'.cpu.caches.ss = m.cpu.caches.ss
  high : m.cpu.SameHigh m'.cpu
  saved : ∀ k < w.bytes, m'.bus.read8 (m'.cpu.byteAddress (m'.cpu.framePlace w) k) =
    m.bus.read8 (m.cpu.byteAddress (m.cpu.framePlace w) k)

/-- The frame pointer of the machine points below the top of the stack of `c`, and the frame pointer
of `c` is saved there. -/
structure Saved (w : Width) (c : Cpu) (m : Machine) : Prop where
  takes : c.mayPush w.bytes = true
  pointer : m.cpu.framePointer w = (c.lowered w.bytes).stackPointer
  segment : m.cpu.caches.ss = c.caches.ss
  high : c.SameHigh m.cpu
  bytes : ∀ k < w.bytes, m.bus.read8 (m.cpu.byteAddress (m.cpu.framePlace w) k) =
    byteOf (c.framePointer w) k

namespace Cpu

theorem framePointer_setStackPointer (c : Cpu) (v : UInt32) :
    (c.setStackPointer v).framePointer w = c.framePointer w := by
  rw [setStackPointer_eq]
  cases w <;> rfl

theorem esp_writeFrame (c : Cpu) (v : UInt32) :
    (c.writeRegister (stackView w .bp) v).regs.gprs.esp = c.regs.gprs.esp := by
  cases w <;> rfl

theorem stackPointer_writeFrame (c : Cpu) (v : UInt32) :
    (c.writeRegister (stackView w .bp) v).stackPointer = c.stackPointer := by
  rw [stackPointer, esp_writeFrame]
  rfl

/-- A stack pointer fits in the frame pointer, unless it is wide and the frame pointer is not. -/
theorem framePointer_writeFrame (hw : w ≠ .byte) {wide : Bool} (hWide : wide = true → w = .dword)
    (c : Cpu) (v : UInt32) :
    (c.writeRegister (stackView w .bp) (wrapOffset wide v)).framePointer w = wrapOffset wide v := by
  refine (Registers.read_write_self _ _ _).trans ?_
  cases w with
  | byte => exact absurd rfl hw
  | dword => exact Width.truncate_dword _
  | word =>
    cases wide with
    | true => cases hWide rfl
    | false => exact Width.truncate_truncate .word v

/-- The frame pointer points to the place below the top of the stack. -/
theorem byteAddress_framePlace (hPointer : c'.framePointer w = (c.lowered w.bytes).stackPointer)
    (hSegment : c'.caches.ss = c.caches.ss) {k : Nat} (hk : k < w.bytes) :
    c'.byteAddress (c'.framePlace w) k = c.stackByte (w.bytes - 1 - k) := by
  have hWide : c'.stack32 = c.stack32 := congrArg Descriptor.big hSegment
  rw [framePlace, hPointer, hWide, ← c.byteAddress_lowered hk]
  exact congrArg (fun d : Descriptor => d.base + _) hSegment

/-- LEAVE looks at all of EBP, but only what is in the frame pointer counts. -/
theorem wrapOffset_ebp (hw : w ≠ .byte) {wide : Bool} (hWide : wide = true → w = .dword) (c : Cpu) :
    wrapOffset wide c.regs.gprs.ebp = wrapOffset wide (c.framePointer w) := by
  cases w with
  | byte => exact absurd rfl hw
  | dword => rfl
  | word =>
    cases wide with
    | true => cases hWide rfl
    | false =>
      have hLow : c.framePointer .word = c.regs.gprs.ebp.toUInt16.toUInt32 := rfl
      rw [hLow, wrapOffset_false_eq, wrapOffset_false_eq, UInt16.toUInt16_toUInt32]

/-! ### The high half of ESP -/

theorem SameHigh.trans {c₁ : Cpu} (h : c.SameHigh c₁) (h' : c₁.SameHigh c')
    (hWide : c₁.stack32 = c.stack32) : c.SameHigh c' := by
  intro hNarrow n hn hTop
  rw [h' (hWide.trans hNarrow) n hn hTop, h hNarrow n hn hTop]

theorem sameHigh_setStackPointer (c : Cpu) (v : UInt32) : c.SameHigh (c.setStackPointer v) := by
  intro hNarrow n hn hTop
  rw [esp_setStackPointer, hNarrow, if_neg Bool.false_ne_true, bitAt_replaceWord _ _ hTop,
    if_neg (by omega)]

theorem SameHigh.writeFrame (h : c.SameHigh c') (w : Width) (v : UInt32) :
    c.SameHigh (c'.writeRegister (stackView w .bp) v) := by
  intro hNarrow n hn hTop
  rw [esp_writeFrame, h hNarrow n hn hTop]

/-- The offset and the high half make up ESP. -/
theorem esp_setStackPointer_congr (h : c.SameHigh c') (hWide : c'.stack32 = c.stack32)
    {v u : UInt32} (hOffset : wrapOffset c.stack32 v = wrapOffset c.stack32 u) :
    (c'.setStackPointer v).regs.gprs.esp = (c.setStackPointer u).regs.gprs.esp := by
  rw [esp_setStackPointer, esp_setStackPointer, hWide]
  cases hNarrow : c.stack32 with
  | true =>
    rw [hNarrow, wrapOffset_true, wrapOffset_true] at hOffset
    exact hOffset
  | false =>
    rw [hNarrow, wrapOffset_false_eq, wrapOffset_false_eq] at hOffset
    have hLow : v.toUInt16 = u.toUInt16 := by
      rw [← UInt16.toUInt16_toUInt32 v.toUInt16, hOffset, UInt16.toUInt16_toUInt32]
    rw [if_neg Bool.false_ne_true, if_neg Bool.false_ne_true, hLow]
    exact replaceWord_congr _ (h hNarrow)

end Cpu

/-! ### LEAVE -/

/-- What goes before the body of an instruction shows neither in its stack nor in its memory. -/
theorem Machine.keepsFrame_fetched (w : Width) (m : Machine) (i : Instruction) :
    m.KeepsFrame w (fetched m i) :=
  ⟨rfl, rfl, fun _ _ _ _ => rfl, fun _ _ => rfl⟩

namespace Saved

variable {m m' : Machine} {j : Instruction}

theorem of_keepsFrame (h : Saved w c m) (hKeeps : m.KeepsFrame w m') : Saved w c m' where
  takes := h.takes
  pointer := hKeeps.pointer.trans h.pointer
  segment := hKeeps.segment.trans h.segment
  high := h.high.trans hKeeps.high (congrArg Descriptor.big h.segment)
  bytes k hk := (hKeeps.saved k hk).trans (h.bytes k hk)

/-- LEAVE goes back to the frame pointer and pops the one that is saved there. -/
theorem leave (hw : w ≠ .byte) (hWide : c.stack32 = true → w = .dword) (h : Saved w c m)
    (hMode : m.cpu.protectedMode = true → c.protectedMode = true) (hSize : j.size = w) :
    ∃ m', Exec.leave j m = .ok () m' ∧ m'.cpu.framePointer w = c.framePointer w ∧
      m'.cpu.regs.gprs.esp = c.regs.gprs.esp := by
  subst hSize
  let m₁ := m.withCpu fun c => c.setStackPointer c.regs.gprs.ebp
  have hWide₁ : m.cpu.stack32 = c.stack32 := congrArg Descriptor.big h.segment
  have hStack : (c.lowered j.size.bytes).SameStack m₁.cpu := by
    refine ⟨?_, h.segment⟩
    refine Cpu.esp_setStackPointer_congr h.high hWide₁ ?_
    rw [Cpu.wrapOffset_ebp hw hWide, h.pointer, Cpu.stackPointer_lowered]
  have hBytes : ∀ i < j.size.bytes,
      m₁.bus.read8 (c.stackByte (j.size.bytes - 1 - i)) = byteOf (c.framePointer j.size) i := by
    intro i hi
    rw [← Cpu.byteAddress_framePlace h.pointer h.segment hi]
    exact h.bytes i hi
  have hMode₁ : m₁.cpu.protectedMode = m.cpu.protectedMode := by
    change (m.cpu.setStackPointer m.cpu.regs.gprs.ebp).protectedMode = _
    rw [Cpu.setStackPointer_eq]
    rfl
  have hPop := pop_of_sameStack (m := m₁) (fun hOn => hMode (hMode₁.symm.trans hOn)) h.takes
    hStack hBytes
  let m₂ := m₁.withCpu (·.setStackPointer c.stackPointer)
  let v := j.size.truncate (c.framePointer j.size)
  refine ⟨m₂.withCpu (·.writeRegister (stackView j.size .bp) v), ?_, ?_, ?_⟩
  · rw [Exec.leave, bind_of_ok (modifyCpu_apply _ m), bind_of_ok hPop]
    rfl
  · refine (Registers.read_write_self m₂.cpu.regs (stackView j.size .bp) v).trans ?_
    have hFits := c.regs.truncate_read (stackView j.size .bp)
    have hWidth : (stackView j.size .bp).width = j.size := by
      cases hSize : j.size with
      | byte => exact absurd hSize hw
      | word | dword => rfl
    rw [hWidth] at hFits ⊢
    rw [Width.truncate_truncate]
    exact hFits
  · change (m₂.cpu.writeRegister (stackView j.size .bp) v).regs.gprs.esp = _
    rw [Cpu.esp_writeFrame]
    change (m₁.cpu.setStackPointer c.stackPointer).regs.gprs.esp = _
    rw [Cpu.setStackPointer_of_sameStack hStack]
    rfl

end Saved

namespace Exec

variable {m m₁ m' : Machine} {i j : Instruction} {n : Nat}

/-! ### ENTER -/

/-- Copying frame pointers pushes as many values. -/
theorem exists_pushList_of_copyFrames {bp : UInt32} (h : copyFrames w n bp m = .ok () m') :
    ∃ vs : List UInt32, vs.length = n ∧ pushList w vs m = .ok () m' := by
  induction n generalizing bp m with
  | zero =>
    cases h
    exact ⟨[], rfl, rfl⟩
  | succ n ih =>
    rw [copyFrames, bind_of_ok (cpu_apply m)] at h
    obtain ⟨v, m₁, hRead, hRest⟩ := bind_eq_ok.1 h
    cases (Reads.readMem _ _).eq_of_ok hRead
    obtain ⟨_, m₂, hPush, hCopy⟩ := bind_eq_ok.1 hRest
    obtain ⟨vs, hLength, hVs⟩ := ih hCopy
    refine ⟨v :: vs, ?_, ?_⟩
    · rw [List.length_cons, hLength]
    · rw [pushList, bind_of_ok hPush, hVs]

/-- ENTER pushes the frame pointer and one value for each level, and then moves the frame pointer
and the stack pointer. -/
theorem enter_eq_ok {size : UInt16} {level : UInt8} (hSize : i.dst = .imm16 size)
    (hLevel : i.src = .imm8 level) (h : enter i m = .ok () m') :
    ∃ vs m₁, vs.length = level.toNat % 32 ∧
      pushList i.size (m.cpu.framePointer i.size :: vs) m = .ok () m₁ ∧
      m' = m₁.withCpu fun c =>
        let c := c.writeRegister (stackView i.size .bp) (m.cpu.lowered i.size.bytes).stackPointer
        c.setStackPointer (c.stackPointer - size.toUInt32) := by
  rw [enter, hSize, hLevel, bind_of_ok (regs_apply m)] at h
  obtain ⟨_, m₁, hPush, hRest⟩ := bind_eq_ok.1 h
  have hFirst : push (m.cpu.framePointer i.size) i.size m = .ok () m₁ := hPush
  have hFrame : m₁.cpu.stackPointer = (m.cpu.lowered i.size.bytes).stackPointer := by
    rw [← pushList_one] at hFirst
    rw [cpu_of_pushList hFirst, List.length_singleton, Nat.mul_one]
  rw [bind_of_ok (cpu_apply m₁), hFrame] at hRest
  dsimp only at hRest
  -- with no level there is nothing to copy, otherwise the new frame pointer comes last
  by_cases hPos : level.toNat % 32 > 0
  · rw [if_pos hPos] at hRest
    obtain ⟨_, m₂, hCopy, hLevels⟩ := bind_eq_ok.1 hRest
    obtain ⟨_, m₃, hLast, hEnd⟩ := bind_eq_ok.1 hLevels
    obtain ⟨vs, hLength, hVs⟩ := exists_pushList_of_copyFrames hCopy
    rw [← pushList_one] at hLast
    refine ⟨vs ++ [(m.cpu.lowered i.size.bytes).stackPointer], m₃, ?_, ?_, ?_⟩
    · rw [List.length_append, hLength, List.length_singleton]
      omega
    · rw [pushList, bind_of_ok hFirst, pushList_append, bind_of_ok hVs, hLast]
    · cases hEnd
      rfl
  · rw [if_neg hPos] at hRest
    refine ⟨[], m₁, ?_, ?_, ?_⟩
    · rw [List.length_nil]
      omega
    · rw [pushList_one, hFirst]
    · cases hRest
      rfl

/-- ENTER moves the frame pointer and the stack pointer, and saves the old frame pointer. -/
theorem saved_of_enter {size : UInt16} {level : UInt8} (hw : w ≠ .byte)
    (hWide : m.cpu.stack32 = true → w = .dword) (hOp : i.size = w) (hSize : i.dst = .imm16 size)
    (hLevel : i.src = .imm8 level)
    (hBacked : ∀ k < w.bytes * (1 + level.toNat % 32), m.bus.Backed (m.cpu.stackByte k))
    (h : enter i m = .ok () m') :
    Saved w m.cpu m' ∧ m'.cpu.stackPointer = wrapOffset m.cpu.stack32
      (m.cpu.stackPointer - UInt32.ofNat (w.bytes * (1 + level.toNat % 32)) - size.toUInt32) := by
  subst hOp
  obtain ⟨vs, m₁, hLength, hPush, rfl⟩ := enter_eq_ok hSize hLevel h
  let frame := (m.cpu.lowered i.size.bytes).stackPointer
  let c₁ := m₁.cpu.writeRegister (stackView i.size .bp) frame
  have hValues : (m.cpu.framePointer i.size :: vs).length = 1 + level.toNat % 32 := by
    rw [List.length_cons, hLength, Nat.add_comm]
  have hCpu : m₁.cpu = m.cpu.lowered (i.size.bytes * (1 + level.toNat % 32)) := by
    rw [cpu_of_pushList hPush, hValues]
  have hSegment : m₁.cpu.caches.ss = m.cpu.caches.ss := by
    rw [hCpu]
    rfl
  have hWide₁ : c₁.stack32 = m.cpu.stack32 := congrArg Descriptor.big hSegment
  have hPointer : (c₁.setStackPointer (c₁.stackPointer - size.toUInt32)).framePointer i.size =
      frame := by
    have hFrame : frame = wrapOffset m.cpu.stack32
        (m.cpu.stackPointer - UInt32.ofNat i.size.bytes) := Cpu.stackPointer_lowered ..
    rw [Cpu.framePointer_setStackPointer]
    change (m₁.cpu.writeRegister (stackView i.size .bp) frame).framePointer i.size = frame
    rw [hFrame, Cpu.framePointer_writeFrame hw hWide]
  refine ⟨⟨(takes_of_pushList hPush).1, hPointer, hSegment, ?_, ?_⟩, ?_⟩
  · -- both moves of the stack pointer keep the high half
    have hPushed : m.cpu.SameHigh m₁.cpu := by
      rw [hCpu]
      exact Cpu.sameHigh_setStackPointer m.cpu _
    exact (hPushed.writeFrame i.size frame).trans (Cpu.sameHigh_setStackPointer c₁ _) hWide₁
  · have hRoom : i.size.bytes * (m.cpu.framePointer i.size :: vs).length ≤ 0x10000 := by
      rw [hValues]
      cases i.size <;> simp only [Width.bytes] <;> omega
    rw [← hValues] at hBacked
    obtain ⟨hFirst, -⟩ := (Framed.of_pushList hRoom hBacked hPush).holds
    intro k hk
    refine Eq.trans (congrArg m₁.bus.read8 ?_) (hFirst k hk)
    exact Cpu.byteAddress_framePlace hPointer hSegment hk
  · change (c₁.setStackPointer (c₁.stackPointer - size.toUInt32)).stackPointer = _
    rw [Cpu.stackPointer_setStackPointer, hWide₁, Cpu.stackPointer_writeFrame, hCpu,
      Cpu.stackPointer_lowered, wrapOffset_sub]

/-- **LEAVE takes ENTER back.** ENTER puts the frame pointer one value below the old top of the
stack, and the stack pointer below one more value for each level and the room. LEAVE restores both,
whatever the procedure does that keeps the frame, unless it switches protection on. -/
theorem leave_of_enter {size : UInt16} {level : UInt8} (hw : w ≠ .byte)
    (hWide : m.cpu.stack32 = true → w = .dword) (hi : i.Does .enter w) (hSize : i.dst = .imm16 size)
    (hLevel : i.src = .imm8 level) (hj : j.Does .leave w)
    (hBacked : ∀ k < w.bytes * (1 + level.toNat % 32), m.bus.Backed (m.cpu.stackByte k))
    (h : Performs i m m₁) :
    m₁.cpu.framePointer w =
        wrapOffset m.cpu.stack32 (m.cpu.stackPointer - UInt32.ofNat w.bytes) ∧
      m₁.cpu.stackPointer = wrapOffset m.cpu.stack32
        (m.cpu.stackPointer - UInt32.ofNat (w.bytes * (1 + level.toNat % 32)) - size.toUInt32) ∧
      ∀ m₂, m₁.KeepsFrame w m₂ → (m₂.cpu.protectedMode = true → m.cpu.protectedMode = true) →
        ∃ m₃, Performs j m₂ m₃ ∧ m₃.cpu.framePointer w = m.cpu.framePointer w ∧
          m₃.cpu.regs.gprs.esp = m.cpu.regs.gprs.esp := by
  rw [Performs, perform_of_does hi, once, hi.operation] at h
  obtain ⟨hSaved, hStack⟩ := saved_of_enter (m := fetched m i) hw hWide hi.size hSize hLevel
    hBacked h
  refine ⟨hSaved.pointer.trans (Cpu.stackPointer_lowered _ _), hStack, ?_⟩
  intro m₂ hKeeps hMode
  have hStill : Saved w (fetched m i).cpu (fetched m₂ j) :=
    (hSaved.of_keepsFrame hKeeps).of_keepsFrame (m₂.keepsFrame_fetched w j)
  obtain ⟨m₃, hLeave, hPointer, hEsp⟩ :=
    Saved.leave (c := (fetched m i).cpu) hw hWide hStill hMode hj.size
  refine ⟨m₃, ?_, hPointer, hEsp⟩
  rw [Performs, perform_of_does hj, once, hj.operation]
  exact hLeave

theorem leave_of_enter_nested :
    ∃ m₁ m₂ m₃,
      Performs { operation := .enter, dst := .imm16 4, src := .imm8 2, length := 4 }
        pairMachine m₁ ∧
      m₁.cpu.framePointer .word = 0x1E ∧ m₁.cpu.stackPointer = 0x16 ∧
      Performs { operation := .push, dst := .imm16 0x4242, length := 3 } m₁ m₂ ∧
      m₂.cpu.stackPointer = 0x14 ∧ Performs { operation := .leave, length := 1 } m₂ m₃ ∧
      m₃.cpu.framePointer .word = 0xFFFF ∧ m₃.cpu.regs.gprs.esp = 0x20 := by
  let i : Instruction := { operation := .enter, dst := .imm16 4, src := .imm8 2, length := 4 }
  let between : Instruction := { operation := .push, dst := .imm16 0x4242, length := 3 }
  let m₁ := after (perform i) (fetched pairMachine i)
  let m₂ := after (perform between) (fetched m₁ between)
  have hEnter : Performs i pairMachine m₁ := ok_after (by decide +kernel)
  have hPush : Performs between m₁ m₂ := ok_after (by decide +kernel)
  have hHigh : ∀ n < 32, 16 ≤ n →
      bitAt m₂.cpu.regs.gprs.esp n = bitAt m₁.cpu.regs.gprs.esp n := by decide +kernel
  have hKeeps : m₁.KeepsFrame .word m₂ :=
    ⟨by decide +kernel, by decide +kernel, fun _ n hn hTop => hHigh n hTop hn, by decide +kernel⟩
  obtain ⟨hFrame, hStack, hLeave⟩ :=
    leave_of_enter (w := .word) (i := i) (j := { operation := .leave, length := 1 })
      (by decide) (by decide) ⟨rfl, rfl, rfl⟩ rfl rfl ⟨rfl, rfl, rfl⟩
      (fun k hk => backed_pairMachine k (Nat.lt_of_lt_of_le hk (by decide))) hEnter
  obtain ⟨m₃, hLast, hPointer, hEsp⟩ := hLeave m₂ hKeeps (by decide +kernel)
  exact ⟨m₁, m₂, m₃, hEnter, hFrame.trans (by decide), hStack.trans (by decide), hPush,
    by decide +kernel, hLast, hPointer.trans (by decide), hEsp⟩

/-- A machine in real mode whose stack segment has sixteen bytes. -/
def shortStack : Machine :=
  { cpu :=
      { model := .i80386
        regs := { gprs := { eax := 1, esp := 0x20, ebp := 0x1234 } }
        caches := (SegMap.replicate {}).set .ss { limit := 0xF, access := 0x93 } }
    bus := { ram := ⟨⟨Array.replicate 32 0⟩⟩ } }

/-- Real mode does not look at the limit of the stack segment, but protected mode does: once
protection is on, LEAVE can fail where ENTER did not. -/
theorem leave_refused :
    shortStack.cpu.stack32 = false ∧
      (∀ k < 2, shortStack.bus.Backed (shortStack.cpu.stackByte k)) ∧
      ∃ m₁ m₂,
        Performs { operation := .enter, dst := .imm16 0, src := .imm8 0, length := 4 }
          shortStack m₁ ∧
        Performs { operation := .lmsw, dst := .reg (.word .ax), length := 3 } m₁ m₂ ∧
        m₁.KeepsFrame .word m₂ ∧ m₂.cpu.regs.selectors = m₁.cpu.regs.selectors ∧
        ∀ m₃, ¬ Performs { operation := .leave, length := 1 } m₂ m₃ := by
  let i : Instruction := { operation := .enter, dst := .imm16 0, src := .imm8 0, length := 4 }
  let between : Instruction := { operation := .lmsw, dst := .reg (.word .ax), length := 3 }
  let j : Instruction := { operation := .leave, length := 1 }
  let m₁ := after (perform i) (fetched shortStack i)
  let m₂ := after (perform between) (fetched m₁ between)
  have hEsp : m₂.cpu.regs.gprs.esp = m₁.cpu.regs.gprs.esp := by decide +kernel
  have hKeeps : m₁.KeepsFrame .word m₂ :=
    ⟨by decide +kernel, by decide +kernel, fun _ n _ _ => congrArg (bitAt · n) hEsp,
      by decide +kernel⟩
  have hFails : (ending? (perform j) (fetched m₂ j)).isNone = true := by decide +kernel
  have hInstalled : ∀ k < 2,
      (shortStack.bus.physical (shortStack.cpu.stackByte k)).toNat < shortStack.bus.ram.size := by
    decide +kernel
  refine ⟨rfl, fun k hk => ⟨Bus.windowAt_eq_none rfl _, hInstalled k hk⟩, m₁, m₂,
    ok_after (by decide +kernel), ok_after (by decide +kernel), hKeeps, by decide +kernel, ?_⟩
  intro m₃ hLeave
  have hEnds : ending? (perform j) (fetched m₂ j) = some ((), m₃) := ending?_eq_some.2 hLeave
  rw [hEnds] at hFails
  cases hFails

end Exec

end X86
