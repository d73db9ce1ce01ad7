import X86.Proofs.Machine.Return
import X86.Proofs.Machine.Run

/-!
# Stack instructions in pairs

What one instruction pushes, its counterpart pops: all registers, the flags, or the place to return
to. Between the two the program may use the registers that PUSHA saved.

* `Framed`: a machine has the frame on its stack that a processor pushed.
* `Exec.get_setPopped`: POPA replaces the low parts of all registers but SP.
* `Exec.popa_of_pusha`, `Exec.popf_of_pushf`, `Exec.returnNear_of_callNear`,
  `Exec.returnFar_of_callFar`: the four pairs.
* `Exec.stack_pairs`: **the second instruction of a pair takes the first one back.**
-/

namespace X86

open Exec

/-- The frame that `c` pushed lies on the stack of the machine. -/
structure Framed (w : Width) (vs : List UInt32) (c : Cpu) (m : Machine) : Prop where
  mode : m.cpu.protectedMode = c.protectedMode
  stack : (c.lowered (w.bytes * vs.length)).SameStack m.cpu
  takes : c.Takes w vs.length
  holds : Cpu.Holds m.bus w c vs

/-- The machines have the same mode, stack and memory. -/
structure Machine.SameFrame (m m' : Machine) : Prop where
  mode : m'.cpu.protectedMode = m.cpu.protectedMode
  stack : m.cpu.SameStack m'.cpu
  bus : m'.bus = m.bus

namespace Framed

variable {w : Width} {vs : List UInt32} {c : Cpu} {m m' : Machine}

theorem of_sameFrame (h : Framed w vs c m) (hSame : m.SameFrame m') : Framed w vs c m' where
  mode := hSame.mode.trans h.mode
  stack := ⟨hSame.stack.esp.trans h.stack.esp, hSame.stack.cache.trans h.stack.cache⟩
  takes := h.takes
  holds := by
    rw [hSame.bus]
    exact h.holds

theorem of_pushList (hRoom : w.bytes * vs.length ≤ 0x10000)
    (hBacked : ∀ k < w.bytes * vs.length, m.bus.Backed (m.cpu.stackByte k))
    (h : pushList w vs m = .ok () m') : Framed w vs m.cpu m' := by
  have hTakes := takes_of_pushList h
  obtain ⟨b, hPush, -, hHolds⟩ := pushList_apply vs hTakes hRoom hBacked
  cases h.symm.trans hPush
  exact ⟨m.cpu.protectedMode_lowered _, .refl _, hTakes, hHolds⟩

theorem popList (h : Framed w vs c m) :
    popList w vs.length [] m =
      .ok (vs.map w.truncate) (m.withCpu (·.withEsp c.regs.gprs.esp)) := by
  have hPopped := popList_of_holds h.mode h.takes h.stack h.holds []
  have hBack : m.withCpu (·.setStackPointer c.stackPointer) =
      m.withCpu (·.withEsp c.regs.gprs.esp) := by
    rw [Machine.withCpu, Cpu.setStackPointer_of_sameStack h.stack]
    rfl
  rw [hPopped, List.append_nil, hBack]

end Framed

theorem Machine.sameFrame_fetched (m : Machine) (i : Instruction) : m.SameFrame (fetched m i) :=
  ⟨rfl, ⟨rfl, rfl⟩, rfl⟩

namespace Exec

variable {w : Width} {i j : Instruction} {m m₁ m₂ : Machine}

/-! ### Frames of one and of two values -/

theorem pushList_one (w : Width) (v : UInt32) : pushList w [v] = push v w := bind_pure_unit ..

theorem pushList_two (w : Width) (v u : UInt32) :
    pushList w [v, u] = (do push v w; push u w) := by
  rw [pushList, pushList_one]

theorem pop_of_popList {v : UInt32} (h : popList w 1 [] m = .ok [v] m₁) : pop w m = .ok v m₁ := by
  simp only [popList, bind_eq_ok] at h
  obtain ⟨_, _, hPop, hEnd⟩ := h
  cases hEnd
  exact hPop

/-- What an instruction that pushes leaves on the stack, and on the processor. -/
theorem framed_of_pushList (vs : List UInt32) (hLength : vs.length ≤ 8)
    (hBacked : ∀ k < w.bytes * vs.length, m.bus.Backed (m.cpu.stackByte k))
    (h : pushList w vs (fetched m i) = .ok () m₁) :
    Framed w vs (m.cpu.begin i) m₁ ∧
      m₁.cpu = (m.cpu.begin i).withEsp m₁.cpu.regs.gprs.esp := by
  have hRoom : w.bytes * vs.length ≤ 0x10000 := by
    cases w <;> simp only [Width.bytes] <;> omega
  refine ⟨.of_pushList (m := fetched m i) hRoom hBacked h, ?_⟩
  rw [cpu_of_pushList h, Cpu.lowered]
  exact Cpu.setStackPointer_eq _ _

/-! ### All registers -/

/-- Replaces the part of a register that the stack instructions of width `w` use. -/
def replaceView (w : Width) (old v : UInt32) : UInt32 :=
  match w with
  | .dword => v
  | _ => replaceWord old v.toUInt16

theorem get_write_stackView (g : Registers) (w : Width) (r s : Gpr) (v : UInt32) :
    (g.write (stackView w r) v).gprs.get s =
      if s = r then replaceView w (g.gprs.get s) v else g.gprs.get s := by
  by_cases hs : s = r
  · subst hs
    rw [if_pos rfl]
    cases w <;> exact Gprs.get_set_self ..
  · rw [if_neg hs]
    cases w <;> exact Gprs.get_set_ne _ _ hs

/-- POPA replaces its part of every register but SP. -/
theorem get_setPopped (w : Width) (g : Registers) (f : Gpr → UInt32) (s : Gpr) :
    (setPopped w g (Gpr.all.map f)).gprs.get s =
      if s = .sp then g.gprs.get s else replaceView w (g.gprs.get s) (f s) := by
  cases s <;> simp [setPopped, Gpr.all, get_write_stackView]

theorem replaceWord_congr {x y : UInt32} (v : UInt16)
    (h : ∀ n, 16 ≤ n → n < 32 → bitAt x n = bitAt y n) : replaceWord x v = replaceWord y v := by
  refine eq_of_bitAt fun n hn => ?_
  rw [bitAt_replaceWord _ _ hn, bitAt_replaceWord _ _ hn]
  split
  · rfl
  · exact h n (by omega) hn

/-- The part of a register and what is above it make up the register. -/
theorem replaceView_read (g : Registers) (r : Gpr) {old : UInt32}
    (hHigh : ∀ n, w.bits ≤ n → n < 32 → bitAt old n = bitAt (g.gprs.get r) n) (hw : w ≠ .byte) :
    replaceView w old (w.truncate (g.read (stackView w r))) = g.gprs.get r := by
  have hFits := g.truncate_read (stackView w r)
  cases w with
  | byte => exact absurd rfl hw
  | dword => exact hFits
  | word =>
    have hPart : Width.word.truncate (g.read (stackView .word r)) =
        (g.gprs.get r).toUInt16.toUInt32 := hFits
    rw [hPart]
    change replaceWord old (g.gprs.get r).toUInt16.toUInt32.toUInt16 = _
    rw [UInt16.toUInt16_toUInt32, replaceWord_congr _ hHigh, Cpu.replaceWord_self]

theorem perform_pusha (hi : i.Does .pusha w) (m : Machine) :
    perform i m = pushList w (Gpr.all.map fun r => m.cpu.regs.read (stackView w r)) m := by
  rw [perform_of_does hi, once, hi.operation]
  change pusha i m = _
  rw [pusha, hi.size]
  rfl

/-- In real mode the stack takes all registers. -/
theorem performs_pusha_of_real (hi : i.Does .pusha w) (hReal : m.cpu.protectedMode = false)
    (hBacked : ∀ k < w.bytes * 8, m.bus.Backed (m.cpu.stackByte k)) : ∃ m₁, Performs i m m₁ := by
  have hFetched : (fetched m i).cpu.protectedMode = false := hReal
  have hRoom : w.bytes * 8 ≤ 0x10000 := by cases w <;> decide
  obtain ⟨b, hPush, -⟩ := pushList_apply (m := fetched m i) (w := w)
    (Gpr.all.map fun r => (fetched m i).cpu.regs.read (stackView w r))
    (Cpu.takes_of_real hFetched _ _) hRoom hBacked
  exact ⟨_, (perform_pusha hi _).trans hPush⟩

/-- **POPA takes PUSHA back, even if the parts that it saved have been used.** -/
theorem popa_of_pusha (hw : w ≠ .byte) (hi : i.Does .pusha w) (hj : j.Does .popa w)
    (hBacked : ∀ k < w.bytes * 8, m.bus.Backed (m.cpu.stackByte k)) (h : Performs i m m₁)
    (hSame : m₁.SameFrame m₂)
    (hHigh : ∀ r, r ≠ .sp → ∀ n, w.bits ≤ n → n < 32 →
      bitAt (m₂.cpu.regs.gprs.get r) n = bitAt (m₁.cpu.regs.gprs.get r) n) :
    ∃ m₃, Performs j m₂ m₃ ∧ m₃.cpu.regs.gprs = m.cpu.regs.gprs := by
  let g := m.cpu.regs
  let vs := Gpr.all.map fun r => g.read (stackView w r)
  let saved : Gpr → UInt32 := fun r => w.truncate (g.read (stackView w r))
  have hPush : pushList w vs (fetched m i) = .ok () m₁ := (perform_pusha hi _).symm.trans h
  obtain ⟨hFramed, hCpu⟩ := framed_of_pushList vs (Nat.le_refl 8) hBacked hPush
  let m' := (fetched m₂ j).withCpu (·.withEsp g.gprs.esp)
  have hPop : popList w 8 [] (fetched m₂ j) = .ok (Gpr.all.map saved) m' :=
    ((hFramed.of_sameFrame hSame).of_sameFrame (m₂.sameFrame_fetched j)).popList.trans
      (by rw [List.map_map]; rfl)
  refine ⟨m'.withCpu fun c => { c with regs := setPopped w c.regs (Gpr.all.map saved) }, ?_, ?_⟩
  · rw [Performs, perform_of_does hj, once, hj.operation]
    change popa j (fetched m₂ j) = _
    rw [popa, hj.size, bind_of_ok hPop]
    rfl
  · refine Gprs.ext_get fun r => (get_setPopped w m'.cpu.regs saved r).trans ?_
    by_cases hr : r = .sp
    · rw [if_pos hr, hr]
      rfl
    · rw [if_neg hr]
      refine replaceView_read g r (fun n hn hTop => ?_) hw
      calc bitAt (m'.cpu.regs.gprs.get r) n
        _ = bitAt (m₂.cpu.regs.gprs.get r) n := congrArg (bitAt · n) (Cpu.get_withEsp _ _ hr)
        _ = bitAt (m₁.cpu.regs.gprs.get r) n := hHigh r hr n hn hTop
        _ = bitAt (g.gprs.get r) n := by
          rw [hCpu]
          exact congrArg (bitAt · n) (Cpu.get_withEsp _ _ hr)

/-! ### The flags -/

theorem perform_pushf (hi : i.Does .pushf w) (m : Machine) :
    perform i m = pushList w [m.cpu.flagsImage] m := by
  rw [perform_of_does hi, once, hi.operation]
  change pushf i m = _
  rw [pushf, hi.size, bind_of_ok (cpu_apply m), pushList_one]

/-- **POPF takes PUSHF back, but for the resume flag.** -/
theorem popf_of_pushf (hw : w ≠ .byte) (hi : i.Does .pushf w) (hj : j.Does .popf w)
    (hBacked : ∀ k < w.bytes, m.bus.Backed (m.cpu.stackByte k)) (h : Performs i m m₁) :
    ∃ m₂, Performs j m₁ m₂ ∧ m₂.cpu.regs.flags =
      { m.cpu.regs.flags with
        resume := if w = .dword then false else m.cpu.regs.flags.resume } := by
  let c := m.cpu.begin i
  have hPush : pushList w [c.flagsImage] (fetched m i) = .ok () m₁ :=
    (perform_pushf hi _).symm.trans h
  obtain ⟨hFramed, hCpu⟩ := framed_of_pushList [c.flagsImage] (show 1 ≤ 8 by decide)
    (by simpa using hBacked) hPush
  let m₂ := (fetched m₁ j).withCpu (·.withEsp c.regs.gprs.esp)
  have hPop : pop w (fetched m₁ j) = .ok (w.truncate c.flagsImage) m₂ :=
    pop_of_popList (hFramed.of_sameFrame (m₁.sameFrame_fetched j)).popList
  have hModel : m₂.cpu.model = c.model := by
    change m₁.cpu.model = _
    rw [hCpu]
    rfl
  have hFlags : m₂.cpu.regs.flags =
      { c.regs.flags with
        trap := c.regs.flags.trap, interrupt := c.regs.flags.interrupt
        nestedTask := c.regs.flags.nestedTask, resume := c.regs.flags.resume } := by
    change m₁.cpu.regs.flags = c.regs.flags
    rw [hCpu]
    rfl
  have hLoad : m₂.cpu.loadFlags (w.truncate c.flagsImage) w =
      m₂.cpu.setFlags
        { c.regs.flags with resume := if w = .dword then false else c.regs.flags.resume } := by
    have hImage := Cpu.loadFlags_image hw hModel (.inl rfl) hFlags
    rwa [ite_self] at hImage
  refine ⟨m₂.withCpu (·.loadFlags (w.truncate c.flagsImage) w), ?_, ?_⟩
  · rw [Performs, perform_of_does hj, once, hj.operation]
    change popf j (fetched m₁ j) = _
    rw [popf, hj.size, bind_of_ok hPop]
    rfl
  · exact congrArg (·.regs.flags) hLoad

/-! ### Calls -/

/-- A near call pushes the place to return to, and jumps. -/
theorem callNear_eq_ok (h : callNear i m = .ok () m₁) :
    ∃ target m', pushList i.size [m.cpu.regs.eip] m = .ok () m' ∧
      m₁ = m'.withCpu (·.jump target) := by
  obtain ⟨target, m', hTarget, hRest⟩ := bind_eq_ok.1 h
  cases (Reads.nearTarget i).eq_of_ok hTarget
  rw [bind_of_ok (regs_apply _)] at hRest
  obtain ⟨_, m', hPush, hJump⟩ := bind_eq_ok.1 hRest
  cases hJump
  exact ⟨target, m', by rw [pushList_one]; exact hPush, rfl⟩

/-- A far call pushes the place to return to, with its segment, and jumps. -/
theorem callFar_eq_ok (h : callFar i m = .ok () m₁) :
    ∃ segment offset m',
      pushList i.size [(m.cpu.regs.selector .cs).toUInt32, m.cpu.regs.eip] m = .ok () m' ∧
        jumpFar segment offset m' = .ok () m₁ := by
  obtain ⟨⟨segment, offset⟩, m', hTarget, hRest⟩ := bind_eq_ok.1 h
  cases (Reads.farTarget i).eq_of_ok hTarget
  have hPushes : (do
      pushList i.size [(m.cpu.regs.selector .cs).toUInt32, m.cpu.regs.eip]
      jumpFar segment offset) m = .ok () m₁ := by
    rw [pushList_two, bind_assoc]
    exact hRest
  obtain ⟨_, m', hPush, hJump⟩ := bind_eq_ok.1 hPushes
  exact ⟨segment, offset, m', hPush, hJump⟩

/-- The next instruction lies at an offset that does not wrap any more. -/
theorem jump_begin (c : Cpu) (i : Instruction) :
    wrapOffset c.code32 (c.begin i).regs.eip = (c.begin i).regs.eip :=
  wrapOffset_wrapOffset ..

/-- **RET continues behind the CALL, with the registers of the caller.** -/
theorem returnNear_of_callNear (hi : i.Does .callNear w)
    (hj : j.Does .returnNear w) (hDst : j.dst = .absent)
    (hBacked : ∀ k < w.bytes, m.bus.Backed (m.cpu.stackByte k)) (h : Performs i m m₁)
    (hOffset : (fetched m i).cpu.regs.eip.toNat < w.values) :
    ∃ m₂, Performs j m₁ m₂ ∧ m₂.cpu.regs = (fetched m i).cpu.regs := by
  let eip := (m.cpu.begin i).regs.eip
  rw [Performs, perform_of_does hi, once, hi.operation] at h
  obtain ⟨target, m', hPush, rfl⟩ := callNear_eq_ok h
  rw [hi.size] at hPush
  obtain ⟨hFramed, hCpu⟩ := framed_of_pushList [eip] (show 1 ≤ 8 by decide)
    (by simpa using hBacked) hPush
  let m₁ := m'.withCpu (·.jump target)
  have hSame : m'.SameFrame m₁ := ⟨rfl, ⟨rfl, rfl⟩, rfl⟩
  let m₂ := (fetched m₁ j).withCpu (·.withEsp m.cpu.regs.gprs.esp)
  have hPop : pop w (fetched m₁ j) = .ok eip m₂ := by
    have hWhole : w.truncate eip = eip := Width.truncate_eq_self hOffset
    have hPopped := ((hFramed.of_sameFrame hSame).of_sameFrame (m₁.sameFrame_fetched j)).popList
    rw [List.map_singleton, hWhole] at hPopped
    exact pop_of_popList hPopped
  refine ⟨m₂.withCpu (·.jump eip), ?_, ?_⟩
  · rw [Performs, perform_of_does hj, once, hj.operation]
    change returnNear j (fetched m₁ j) = _
    rw [returnNear, hj.size, bind_of_ok hPop, bind_of_ok (modifyCpu_apply ..), release, hDst]
    rfl
  · have hBack : wrapOffset m'.cpu.code32 eip = eip := by
      rw [hCpu]
      exact jump_begin m.cpu i
    change { m'.cpu.regs with
      eip := wrapOffset m'.cpu.code32 eip
      gprs := { m'.cpu.regs.gprs with esp := m.cpu.regs.gprs.esp } } = _
    rw [hBack, hCpu]
    rfl

theorem returnFar_of_popList {eip cs : UInt32} (hj : j.size = w)
    (h : popList w 2 [] m = .ok [cs, eip] m₁) :
    returnFar j m = (do jumpFar cs.toUInt16 eip; release j) m₁ := by
  subst hj
  simp only [popList, bind_eq_ok] at h
  obtain ⟨_, _, hEip, _, _, hCs, hEnd⟩ := h
  cases hEnd
  exact (bind_of_ok hEip).trans (bind_of_ok hCs)

/-- **In real mode a far RET continues behind the far CALL, in the code segment of the caller.** -/
theorem returnFar_of_callFar (hw : w ≠ .byte) (hi : i.Does .callFar w)
    (hj : j.Does .returnFar w) (hDst : j.dst = .absent) (hReal : m.cpu.protectedMode = false)
    (hCs : m.cpu.caches.cs = .realMode (m.cpu.regs.selector .cs))
    (hBacked : ∀ k < w.bytes * 2, m.bus.Backed (m.cpu.stackByte k)) (h : Performs i m m₁) :
    ∃ m₂, Performs j m₁ m₂ ∧ m₂.cpu.regs = (fetched m i).cpu.regs ∧
      m₂.cpu.caches = m.cpu.caches := by
  let c := m.cpu.begin i
  let cs := c.regs.selector .cs
  have hOffset : wrapOffset false c.regs.eip = c.regs.eip := by
    have hNarrow : m.cpu.code32 = false := congrArg Descriptor.big hCs
    rw [← hNarrow]
    exact jump_begin m.cpu i
  rw [Performs, perform_of_does hi, once, hi.operation] at h
  obtain ⟨segment, offset, m', hPush, hJump⟩ := callFar_eq_ok h
  rw [hi.size] at hPush
  obtain ⟨hFramed, hCpu⟩ := framed_of_pushList [cs.toUInt32, c.regs.eip]
    (show 2 ≤ 8 by decide) hBacked hPush
  have hReal' : m'.cpu.protectedMode = false := hFramed.mode.trans hReal
  cases hJump.symm.trans (jumpFar_of_real hReal' segment offset)
  let m₁ := m'.withCpu fun c => (c.loadRealSegment .cs segment).jump offset
  have hSame : m'.SameFrame m₁ := ⟨rfl, ⟨rfl, rfl⟩, rfl⟩
  let m₂ := (fetched m₁ j).withCpu (·.withEsp m.cpu.regs.gprs.esp)
  have hPop : popList w 2 [] (fetched m₁ j) = .ok [cs.toUInt32, c.regs.eip] m₂ := by
    have hSelector : w.truncate cs.toUInt32 = cs.toUInt32 := truncate_word hw cs
    have hWhole : w.truncate c.regs.eip = c.regs.eip := by
      rw [← hOffset, Cpu.wrapOffset_false_eq]
      exact truncate_word hw _
    have hPopped := ((hFramed.of_sameFrame hSame).of_sameFrame (m₁.sameFrame_fetched j)).popList
    rw [List.map_cons, List.map_singleton, hSelector, hWhole] at hPopped
    exact hPopped
  have hReal₂ : m₂.cpu.protectedMode = false := hReal'
  refine ⟨m₂.withCpu fun c' => (c'.loadRealSegment .cs cs).jump c.regs.eip, ?_, ?_, ?_⟩
  · rw [Performs, perform_of_does hj, once, hj.operation]
    change returnFar j (fetched m₁ j) = _
    rw [returnFar_of_popList hj.size hPop, UInt16.toUInt16_toUInt32,
      bind_of_ok (jumpFar_of_real hReal₂ _ _), release, hDst]
    rfl
  · change { m'.cpu.regs with
      selectors := (m'.cpu.regs.selectors.set .cs segment).set .cs cs
      eip := wrapOffset false c.regs.eip
      gprs := { m'.cpu.regs.gprs with esp := m.cpu.regs.gprs.esp } } = _
    rw [hOffset, hCpu]
    rfl
  · change (m'.cpu.caches.set .cs _).set .cs (.realMode cs) = _
    rw [hCpu, show Descriptor.realMode cs = m.cpu.caches.cs from hCs.symm]
    rfl

/-- **The second instruction of a pair takes the first one back.** The program may use the parts of
the registers that PUSHA saved, and of the flags only the resume flag does not come back, by an
image of 32 bits. A call returns behind itself with all registers of the caller. -/
theorem stack_pairs (hw : w ≠ .byte) (h : Performs i m m₁) :
    (i.Does .pusha w → j.Does .popa w →
      (∀ k < w.bytes * 8, m.bus.Backed (m.cpu.stackByte k)) →
      ∀ m₂, m₁.SameFrame m₂ →
        (∀ r, r ≠ .sp → ∀ n, w.bits ≤ n → n < 32 →
          bitAt (m₂.cpu.regs.gprs.get r) n = bitAt (m₁.cpu.regs.gprs.get r) n) →
        ∃ m₃, Performs j m₂ m₃ ∧ m₃.cpu.regs.gprs = m.cpu.regs.gprs) ∧
    (i.Does .pushf w → j.Does .popf w → (∀ k < w.bytes, m.bus.Backed (m.cpu.stackByte k)) →
      ∃ m₂, Performs j m₁ m₂ ∧ m₂.cpu.regs.flags =
        { m.cpu.regs.flags with
          resume := if w = .dword then false else m.cpu.regs.flags.resume }) ∧
    (i.Does .callNear w → j.Does .returnNear w → j.dst = .absent →
      (∀ k < w.bytes, m.bus.Backed (m.cpu.stackByte k)) →
      (fetched m i).cpu.regs.eip.toNat < w.values →
      ∃ m₂, Performs j m₁ m₂ ∧ m₂.cpu.regs = (fetched m i).cpu.regs) ∧
    (i.Does .callFar w → j.Does .returnFar w → j.dst = .absent →
      m.cpu.protectedMode = false → m.cpu.caches.cs = .realMode (m.cpu.regs.selector .cs) →
      (∀ k < w.bytes * 2, m.bus.Backed (m.cpu.stackByte k)) →
      ∃ m₂, Performs j m₁ m₂ ∧ m₂.cpu.regs = (fetched m i).cpu.regs ∧
        m₂.cpu.caches = m.cpu.caches) := by
  refine ⟨fun hi hj hBacked m₂ hSame hHigh => ?_, fun hi hj hBacked => ?_,
    fun hi hj hDst hBacked hOffset => ?_, fun hi hj hDst hReal hCs hBacked => ?_⟩
  · exact popa_of_pusha hw hi hj hBacked h hSame hHigh
  · exact popf_of_pushf hw hi hj hBacked h
  · exact returnNear_of_callNear hi hj hDst hBacked h hOffset
  · exact returnFar_of_callFar hw hi hj hDst hReal hCs hBacked h

/-- A machine in real mode with room for eight double words on the stack. -/
def pairMachine : Machine :=
  { cpu :=
      { model := .i80386
        regs :=
          { gprs := { eax := 0x12345678, esp := 0x20, ebp := 0xFFFFFFFF, edi := 0x80010002 }
            flags := { carry := true, iopl := .ofLowBits 3, nestedTask := true, resume := true } } }
    bus := { ram := ⟨⟨Array.replicate 32 0⟩⟩ } }

theorem backed_pairMachine :
    ∀ k < 32, pairMachine.bus.Backed (pairMachine.cpu.stackByte k) := fun k hk => by
  have hInstalled : ∀ k < 32,
      (pairMachine.bus.physical (pairMachine.cpu.stackByte k)).toNat < pairMachine.bus.ram.size := by
    decide
  exact ⟨Bus.windowAt_eq_none rfl _, hInstalled k hk⟩

theorem stack_pairs_real :
    (∃ m₁ m₂, Performs { operation := .pusha } pairMachine m₁ ∧
      Performs { operation := .popa } (m₁.withCpu (·.writeRegister (.word .ax) 0xBEEF)) m₂ ∧
      m₂.cpu.regs.gprs = pairMachine.cpu.regs.gprs) ∧
    (∃ m₁ m₂, Performs { operation := .pushf, size := .dword } pairMachine m₁ ∧
      Performs { operation := .popf, size := .dword } m₁ m₂ ∧
      m₂.cpu.regs.flags = { carry := true, iopl := .ofLowBits 3, nestedTask := true }) ∧
    (∃ m₁ m₂, Performs { operation := .callNear, dst := .imm16 0x100, length := 3 } pairMachine m₁ ∧
      m₁.cpu.regs.eip = 0x100 ∧ Performs { operation := .returnNear, length := 1 } m₁ m₂ ∧
      m₂.cpu.regs = { pairMachine.cpu.regs with eip := 3 }) ∧
    ∃ m₁ m₂,
      Performs { operation := .callFar, dst := .far 0x40 0x200, size := .dword, length := 8 }
        pairMachine m₁ ∧
      m₁.cpu.regs.eip = 0x200 ∧
      Performs { operation := .returnFar, size := .dword, length := 2 } m₁ m₂ ∧
      m₂.cpu.regs = { pairMachine.cpu.regs with eip := 8 } ∧
      m₂.cpu.caches = pairMachine.cpu.caches := by
  have hBacked {n : Nat} (hn : n ≤ 32) :
      ∀ k < n, pairMachine.bus.Backed (pairMachine.cpu.stackByte k) := fun k hk =>
    backed_pairMachine k (Nat.lt_of_lt_of_le hk hn)
  refine ⟨?_, ?_, ?_, ?_⟩
  · obtain ⟨m₁, hFirst⟩ : ∃ m₁, Performs { operation := .pusha } pairMachine m₁ :=
      performs_pusha_of_real (w := .word) ⟨rfl, rfl, rfl⟩ (by decide) (hBacked (by decide))
    have hHigh (r : Gpr) (n : Nat) (hn : 16 ≤ n) (hTop : n < 32) :
        bitAt ((m₁.cpu.regs.write (.word .ax) 0xBEEF).gprs.get r) n =
          bitAt (m₁.cpu.regs.gprs.get r) n := by
      by_cases hr : r = .ax
      · rw [hr, Registers.write, Registers.setWord, Gprs.get_set_self, bitAt_replaceWord _ _ hTop,
          if_neg (by omega)]
      · rw [Registers.write, Registers.setWord, Gprs.get_set_ne _ _ hr]
    obtain ⟨m₂, hSecond, hGprs⟩ :=
      (stack_pairs (w := .word) (j := { operation := .popa }) (by decide) hFirst).1
        ⟨rfl, rfl, rfl⟩ ⟨rfl, rfl, rfl⟩ (hBacked (by decide))
        (m₁.withCpu (·.writeRegister (.word .ax) 0xBEEF)) ⟨rfl, ⟨rfl, rfl⟩, rfl⟩
        fun r _ => hHigh r
    exact ⟨m₁, m₂, hFirst, hSecond, hGprs⟩
  · obtain ⟨m₁, hFirst⟩ : ∃ m₁, Performs { operation := .pushf, size := .dword } pairMachine m₁ :=
      ⟨_, ok_after (by decide +kernel)⟩
    obtain ⟨m₂, hSecond, hFlags⟩ :=
      (stack_pairs (w := .dword) (j := { operation := .popf, size := .dword }) (by decide)
        hFirst).2.1 ⟨rfl, rfl, rfl⟩ ⟨rfl, rfl, rfl⟩ (hBacked (by decide))
    exact ⟨m₁, m₂, hFirst, hSecond, hFlags.trans (by decide)⟩
  · obtain ⟨m₁, hFirst, hTarget⟩ : ∃ m₁,
        Performs { operation := .callNear, dst := .imm16 0x100, length := 3 } pairMachine m₁ ∧
          m₁.cpu.regs.eip = 0x100 := ⟨_, ok_after (by decide +kernel), by decide +kernel⟩
    obtain ⟨m₂, hSecond, hRegs⟩ :=
      (stack_pairs (w := .word) (j := { operation := .returnNear, length := 1 }) (by decide)
        hFirst).2.2.1 ⟨rfl, rfl, rfl⟩ ⟨rfl, rfl, rfl⟩ rfl (hBacked (by decide)) (by decide)
    exact ⟨m₁, m₂, hFirst, hTarget, hSecond, hRegs.trans (by decide)⟩
  · obtain ⟨m₁, hFirst, hTarget⟩ : ∃ m₁,
        Performs { operation := .callFar, dst := .far 0x40 0x200, size := .dword, length := 8 }
          pairMachine m₁ ∧ m₁.cpu.regs.eip = 0x200 :=
      ⟨_, ok_after (by decide +kernel), by decide +kernel⟩
    obtain ⟨m₂, hSecond, hRegs, hCaches⟩ :=
      (stack_pairs (w := .dword) (j := { operation := .returnFar, size := .dword, length := 2 })
        (by decide) hFirst).2.2.2 ⟨rfl, rfl, rfl⟩ ⟨rfl, rfl, rfl⟩ rfl (by decide) rfl
          (hBacked (by decide))
    exact ⟨m₁, m₂, hFirst, hTarget, hSecond, hRegs.trans (by decide), hCaches⟩

end Exec

end X86
