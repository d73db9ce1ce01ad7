import X86.Execute.Stack
import X86.Proofs.Exec.Primitive

/-!
# Frames on the stack

A frame is pushed value by value. Real mode takes every value; in protected mode the stack segment
can refuse one, with the values before it already on the stack. Where the stack is backed by
installed memory, what was pushed is popped again, also where the stack pointer wraps and where the
A20 gate drops a line. The values of a frame have one width; on the stack itself widths can mix.

* `Cpu.stackByte`: where the bytes of a frame lie.
* `Cpu.TakesAll`, `Cpu.HoldsAll`: the stack segment takes values, and they lie on the stack.
* `Exec.pushAll_apply`: pushing values changes their bytes and the stack pointer.
* `Exec.popAll_of_holdsAll`: **popping returns what was pushed, and the stack pointer goes back.**
* `Exec.pushList_apply`, `Exec.popList_of_holds`: the same of a frame.
* `Exec.exists_take_of_pushList`: where a value is refused, the values before it have been pushed.
* `Exec.popAll_pushAll`: **last in, first out.**
-/

namespace X86

/-! ### Offsets that wrap -/

theorem wrapOffset_add (wide : Bool) (x y : UInt32) :
    wrapOffset wide (wrapOffset wide x + y) = wrapOffset wide (x + y) := by
  rw [← UInt32.toNat_inj, toNat_wrapOffset, toNat_wrapOffset, UInt32.toNat_add, UInt32.toNat_add,
    toNat_wrapOffset]
  cases wide with
  | true => simp only [if_true, Width.values]; omega
  | false => simp only [Bool.false_eq_true, if_false, Width.values]; omega

theorem wrapOffset_sub (wide : Bool) (x y : UInt32) :
    wrapOffset wide (wrapOffset wide x - y) = wrapOffset wide (x - y) := by
  rw [UInt32.sub_eq_add_neg, wrapOffset_add, ← UInt32.sub_eq_add_neg]

theorem wrapOffset_wrapOffset (wide : Bool) (x : UInt32) :
    wrapOffset wide (wrapOffset wide x) = wrapOffset wide x := by
  rw [wrapOffset, wrapOffset, UInt32.and_assoc, UInt32.and_self]

theorem sub_ofNat_sub (x : UInt32) (n k : Nat) :
    x - UInt32.ofNat n - UInt32.ofNat k = x - UInt32.ofNat (n + k) := by
  rw [UInt32.sub_eq_add_neg, UInt32.sub_eq_add_neg, UInt32.sub_eq_add_neg, UInt32.ofNat_add,
    UInt32.neg_add, UInt32.sub_eq_add_neg, UInt32.add_assoc]

/-- The number of bytes that values of these widths take on the stack. -/
def frameSize : List Width → Nat
  | [] => 0
  | w :: ws => w.bytes + frameSize ws

theorem frameSize_cons (w : Width) (ws : List Width) :
    frameSize (w :: ws) = w.bytes + frameSize ws := rfl

theorem frameSize_replicate (w : Width) (n : Nat) :
    frameSize (List.replicate n w) = w.bytes * n := by
  induction n with
  | zero => rfl
  | succ n ih => rw [List.replicate_succ, frameSize_cons, ih, Nat.mul_succ, Nat.add_comm]

namespace Cpu

variable {c c' : Cpu}

/-! ### The stack pointer -/

/-- The two processors address the same stack. -/
structure SameStack (c c' : Cpu) : Prop where
  esp : c'.regs.gprs.esp = c.regs.gprs.esp
  cache : c'.caches.ss = c.caches.ss

namespace SameStack

theorem refl (c : Cpu) : SameStack c c := ⟨rfl, rfl⟩

theorem trans {c'' : Cpu} (h : SameStack c c') (h' : SameStack c' c'') : SameStack c c'' :=
  ⟨h'.esp.trans h.esp, h'.cache.trans h.cache⟩

theorem stack32_eq (h : SameStack c c') : c'.stack32 = c.stack32 := by
  rw [stack32, h.cache, stack32]

theorem stackPointer_eq (h : SameStack c c') : c'.stackPointer = c.stackPointer := by
  rw [stackPointer, h.stack32_eq, h.esp, stackPointer]

theorem byteAddress_eq (h : SameStack c c') (offset : UInt32) (wide : Bool) (i : Nat) :
    c'.byteAddress (.of .ss offset wide) i = c.byteAddress (.of .ss offset wide) i := by
  have hBase : c'.segmentBase .ss = c.segmentBase .ss := congrArg Descriptor.base h.cache
  rw [byteAddress, byteAddress, show (Location.of .ss offset wide).seg = .ss from rfl, hBase]

end SameStack

theorem esp_setStackPointer (c : Cpu) (v : UInt32) :
    (c.setStackPointer v).regs.gprs.esp =
      if c.stack32 then v else replaceWord c.regs.gprs.esp v.toUInt16 := by
  rw [setStackPointer]
  cases c.stack32 <;> rfl

/-- Replaces ESP. -/
def withEsp (c : Cpu) (v : UInt32) : Cpu :=
  { c with regs := { c.regs with gprs := { c.regs.gprs with esp := v } } }

theorem get_withEsp (c : Cpu) (v : UInt32) {r : Gpr} (hr : r ≠ .sp) :
    (c.withEsp v).regs.gprs.get r = c.regs.gprs.get r :=
  Gprs.get_set_ne c.regs.gprs (r := .sp) v hr

theorem setStackPointer_eq (c : Cpu) (v : UInt32) :
    c.setStackPointer v = c.withEsp (c.setStackPointer v).regs.gprs.esp := by
  rw [esp_setStackPointer, setStackPointer]
  cases c.stack32 <;> rfl

theorem stack32_setStackPointer (c : Cpu) (v : UInt32) :
    (c.setStackPointer v).stack32 = c.stack32 := rfl

theorem replaceWord_replaceWord (x : UInt32) (v u : UInt16) :
    replaceWord (replaceWord x v) u = replaceWord x u := by
  refine eq_of_bitAt fun n hn => ?_
  rw [bitAt_replaceWord _ _ hn, bitAt_replaceWord _ _ hn, bitAt_replaceWord _ _ hn]
  split <;> rfl

theorem replaceWord_self (x : UInt32) : replaceWord x x.toUInt16 = x := by
  refine eq_of_bitAt fun n hn => ?_
  rw [bitAt_replaceWord _ _ hn]
  split
  · rename_i hLow
    rw [UInt32.toNat_toUInt16, Nat.testBit_mod_two_pow, bitAt]
    simp [hLow]
  · rfl

theorem wrapOffset_false_eq (v : UInt32) : wrapOffset false v = v.toUInt16.toUInt32 := by
  rw [← UInt32.toNat_inj, toNat_wrapOffset, UInt16.toNat_toUInt32, UInt32.toNat_toUInt16]
  rfl

theorem wrapOffset_true (v : UInt32) : wrapOffset true v = v := UInt32.and_neg_one

theorem stackPointer_setStackPointer (c : Cpu) (v : UInt32) :
    (c.setStackPointer v).stackPointer = wrapOffset c.stack32 v := by
  rw [stackPointer, stack32_setStackPointer, esp_setStackPointer]
  cases c.stack32 with
  | true => rfl
  | false =>
    rw [if_neg Bool.false_ne_true, wrapOffset_false_eq, wrapOffset_false_eq,
      toUInt16_replaceWord]

theorem esp_setStackPointer_of_sameStack {v : UInt32} (h : SameStack (c.setStackPointer v) c')
    (u : UInt32) :
    (c'.setStackPointer u).regs.gprs.esp = (c.setStackPointer u).regs.gprs.esp := by
  rw [esp_setStackPointer, esp_setStackPointer, h.stack32_eq, stack32_setStackPointer, h.esp,
    esp_setStackPointer]
  cases c.stack32 with
  | true => rfl
  | false =>
    rw [if_neg Bool.false_ne_true, if_neg Bool.false_ne_true, if_neg Bool.false_ne_true,
      replaceWord_replaceWord]

/-- Only the last place that the stack pointer moves to counts. -/
theorem setStackPointer_setStackPointer (c : Cpu) (v u : UInt32) :
    (c.setStackPointer v).setStackPointer u = c.setStackPointer u := by
  rw [setStackPointer_eq, esp_setStackPointer_of_sameStack ⟨rfl, rfl⟩, setStackPointer_eq c v,
    setStackPointer_eq c u]
  rfl

theorem esp_setStackPointer_self (c : Cpu) :
    (c.setStackPointer c.stackPointer).regs.gprs.esp = c.regs.gprs.esp := by
  rw [esp_setStackPointer, stackPointer]
  cases c.stack32 with
  | true => exact wrapOffset_true _
  | false =>
    have hLow : (wrapOffset false c.regs.gprs.esp).toUInt16 = c.regs.gprs.esp.toUInt16 := by
      rw [wrapOffset_false_eq, UInt16.toUInt16_toUInt32]
    rw [if_neg Bool.false_ne_true, hLow, replaceWord_self]

theorem setStackPointer_self (c : Cpu) : c.setStackPointer c.stackPointer = c := by
  rw [setStackPointer_eq, esp_setStackPointer_self]
  rfl

/-! ### The bytes of a frame -/

/-- The linear address of byte `k` below the top of the stack, counted downwards from zero. -/
def stackByte (c : Cpu) (k : Nat) : UInt32 :=
  c.segmentBase .ss + wrapOffset c.stack32 (c.stackPointer - UInt32.ofNat (k + 1))

/-- Up to 64 KiB of stack bytes do not meet. -/
theorem physical_stackByte_ne (b : Bus) (c : Cpu) {i j : Nat} (hi : i < 0x10000)
    (hj : j < 0x10000) (hij : i ≠ j) : b.physical (c.stackByte i) ≠ b.physical (c.stackByte j) := by
  have hOffset (k : Nat) (hk : k < 0x10000) :
      (c.stackPointer - UInt32.ofNat (k + 1)).toNat =
        (c.stackPointer.toNat + 0x100000000 - (k + 1)) % 0x100000000 := by
    have hStart := c.stackPointer.toNat_lt
    rw [UInt32.toNat_sub, UInt32.toNat_ofNat']
    omega
  refine Bus.physical_ne (toNat_add_wrapOffset_mod_ne ?_)
  rw [hOffset i hi, hOffset j hj]
  omega

/-- The stack pointer `n` bytes down. -/
def lowered (c : Cpu) (n : Nat) : Cpu :=
  c.setStackPointer (wrapOffset c.stack32 (c.stackPointer - UInt32.ofNat n))

/-- Back from anywhere down. -/
theorem setStackPointer_of_sameStack {n : Nat} (h : (c.lowered n).SameStack c') :
    c'.setStackPointer c.stackPointer = c'.withEsp c.regs.gprs.esp := by
  rw [setStackPointer_eq, esp_setStackPointer_of_sameStack h, esp_setStackPointer_self]

theorem lowered_zero (c : Cpu) : c.lowered 0 = c := by
  have hWrapped : wrapOffset c.stack32 (c.stackPointer - UInt32.ofNat 0) = c.stackPointer :=
    (congrArg _ (UInt32.sub_zero _)).trans (wrapOffset_wrapOffset _ _)
  rw [lowered, hWrapped, setStackPointer_self]

theorem protectedMode_lowered (c : Cpu) (n : Nat) :
    (c.lowered n).protectedMode = c.protectedMode := by
  rw [lowered, setStackPointer_eq]
  rfl

theorem stackPointer_lowered (c : Cpu) (n : Nat) :
    (c.lowered n).stackPointer = wrapOffset c.stack32 (c.stackPointer - UInt32.ofNat n) := by
  rw [lowered, stackPointer_setStackPointer, wrapOffset_wrapOffset]

theorem lowered_lowered (c : Cpu) (n k : Nat) : (c.lowered n).lowered k = c.lowered (n + k) := by
  have hStack : (c.lowered n).stack32 = c.stack32 := rfl
  rw [lowered, hStack, stackPointer_lowered, wrapOffset_sub, sub_ofNat_sub, lowered, lowered,
    setStackPointer_setStackPointer]

theorem stackByte_lowered (c : Cpu) (n k : Nat) :
    (c.lowered n).stackByte k = c.stackByte (n + k) := by
  change c.segmentBase .ss + wrapOffset c.stack32 ((c.lowered n).stackPointer - _) = _
  rw [stackPointer_lowered, wrapOffset_sub, sub_ofNat_sub, stackByte, Nat.add_assoc]

namespace SameStack

theorem stackByte_eq (h : SameStack c c') (k : Nat) : c'.stackByte k = c.stackByte k := by
  have hBase : c'.segmentBase .ss = c.segmentBase .ss := congrArg Descriptor.base h.cache
  rw [stackByte, hBase, h.stack32_eq, h.stackPointer_eq, stackByte]

theorem lowered (h : SameStack c c') (n : Nat) : SameStack (c.lowered n) (c'.lowered n) where
  esp := by
    rw [Cpu.lowered, Cpu.lowered, esp_setStackPointer, esp_setStackPointer, h.stack32_eq,
      h.stackPointer_eq, h.esp]
  cache := h.cache

end SameStack

/-- Where the bytes of a value lie once it has been pushed. -/
theorem byteAddress_lowered (c : Cpu) {n i : Nat} (hi : i < n) :
    c.byteAddress (.of .ss (c.lowered n).stackPointer c.stack32) i = c.stackByte (n - 1 - i) := by
  have hSum : c.stackPointer - UInt32.ofNat n + UInt32.ofNat i =
      c.stackPointer - UInt32.ofNat (n - 1 - i + 1) := by
    have hn : n = n - 1 - i + 1 + i := by omega
    generalize n - 1 - i + 1 = k at hn
    rw [hn, ← sub_ofNat_sub, UInt32.sub_add_cancel]
  change c.segmentBase .ss + wrapOffset c.stack32
    (wrapOffset c.stack32 (c.lowered n).stackPointer + UInt32.ofNat i) = _
  rw [stackPointer_lowered, wrapOffset_wrapOffset, wrapOffset_add, hSum, stackByte]

/-! ### What the stack segment takes -/

/-- The stack segment takes a value of `n` bytes. -/
def mayPush (c : Cpu) (n : Nat) : Bool :=
  c.mayAccess (.of .ss (c.lowered n).stackPointer c.stack32) n .write

/-- The stack segment takes values of these widths, one below the other. -/
def TakesAll : Cpu → List Width → Prop
  | _, [] => True
  | c, w :: rest => c.mayPush w.bytes = true ∧ TakesAll (c.lowered w.bytes) rest

/-- The stack segment takes `n` values, one below the other. -/
def Takes (w : Width) : Cpu → Nat → Prop
  | _, 0 => True
  | c, n + 1 => c.mayPush w.bytes = true ∧ Takes w (c.lowered w.bytes) n

theorem takesAll_replicate {w : Width} {n : Nat} :
    c.TakesAll (List.replicate n w) ↔ c.Takes w n := by
  induction n generalizing c with
  | zero => exact Iff.rfl
  | succ n ih => exact and_congr_right fun _ => ih

theorem takesAll_of_real (hReal : c.protectedMode = false) (ws : List Width) : c.TakesAll ws := by
  induction ws generalizing c with
  | nil => trivial
  | cons w rest ih =>
    refine ⟨?_, ih ((c.protectedMode_lowered w.bytes).trans hReal)⟩
    rw [mayPush, mayAccess, hReal]
    rfl

theorem takes_of_real (hReal : c.protectedMode = false) (w : Width) (n : Nat) : c.Takes w n :=
  takesAll_replicate.1 (takesAll_of_real hReal _)

/-- What was pushed may be popped, also where protection has been left in between. -/
theorem mayAccess_of_mayPush {n : Nat}
    (hMode : c'.protectedMode = true → c.protectedMode = true)
    (hStack : (c.lowered n).SameStack c') (h : c.mayPush n = true) :
    c'.mayAccess (.of .ss c'.stackPointer c'.stack32) n .read = true := by
  have hCache : c'.caches.get .ss = c.caches.get .ss := hStack.cache
  refine mayAccess_read_of_write ?_
  cases hOn : c'.protectedMode with
  | false =>
    rw [mayAccess, hOn]
    rfl
  | true =>
    rw [← h, mayPush, hStack.stackPointer_eq, hStack.stack32_eq, mayAccess, mayAccess, hOn,
      hMode hOn]
    change (_ || (c'.caches.get .ss).allows _ && (c'.caches.get .ss).contains _ _) = _
    rw [hCache]
    rfl

/-! ### What lies on the stack -/

/-- The values of these widths lie on the stack, one below the other, from the top of the stack of
`c` down. -/
def HoldsAll (b : Bus) : Cpu → List (UInt32 × Width) → Prop
  | _, [] => True
  | c, (v, w) :: rest =>
    (∀ i < w.bytes, b.read8 (c.stackByte (w.bytes - 1 - i)) = byteOf v i) ∧
      HoldsAll b (c.lowered w.bytes) rest

/-- The values lie on the stack, one below the other, from the top of the stack of `c` down. -/
def Holds (b : Bus) (w : Width) : Cpu → List UInt32 → Prop
  | _, [] => True
  | c, v :: rest =>
    (∀ i < w.bytes, b.read8 (c.stackByte (w.bytes - 1 - i)) = byteOf v i) ∧
      Holds b w (c.lowered w.bytes) rest

theorem holdsAll_map {b : Bus} {w : Width} {vs : List UInt32} :
    HoldsAll b c (vs.map (·, w)) ↔ Holds b w c vs := by
  induction vs generalizing c with
  | nil => exact Iff.rfl
  | cons v rest ih => exact and_congr_right fun _ => ih

/-- The physical addresses of the `n` bytes below the top of the stack. -/
def frameBytes (c : Cpu) (b : Bus) (n : Nat) (p : UInt32) : Prop :=
  ∃ k < n, p = b.physical (c.stackByte k)

end Cpu

namespace Exec

variable {m m' : Machine} {c : Cpu} {w : Width}

/-! ### Pushing -/

/-- The machine after a push that was not refused. -/
def pushed (m : Machine) (v : UInt32) (w : Width) : Machine :=
  { m with
    cpu := m.cpu.lowered w.bytes
    bus := m.cpu.storeBytes m.bus
      (.of .ss (m.cpu.lowered w.bytes).stackPointer m.cpu.stack32) v w.bytes }

/-- A value that is refused leaves the machine alone. -/
theorem push_eq (v : UInt32) (w : Width) (m : Machine) :
    push v w m =
      if m.cpu.mayPush w.bytes then .ok () (pushed m v w)
      else .error (.fault (.stackFault 0)) m := by
  have hWrite := writeMem_eq (.of .ss (m.cpu.lowered w.bytes).stackPointer m.cpu.stack32) w v m
  rw [← Cpu.mayPush] at hWrite
  rw [push, bind_of_ok (cpu_apply m), ← Cpu.stackPointer_lowered]
  by_cases hMay : m.cpu.mayPush w.bytes = true
  · rw [if_pos hMay] at hWrite
    rw [bind_of_ok hWrite, if_pos hMay, pushed, Cpu.stackPointer_lowered]
    rfl
  · rw [if_neg hMay] at hWrite
    rw [bind_of_error hWrite, if_neg hMay]
    rfl

/-- A push is refused before it stores anything. -/
theorem Atomic.push (v : UInt32) (w : Width) : Atomic (push v w) := by
  intro m s m' h
  rw [push_eq] at h
  split at h <;> cases h
  rfl

theorem push_apply (h : m.cpu.mayPush w.bytes = true) (v : UInt32) :
    push v w m = .ok () (pushed m v w) := by
  rw [push_eq, if_pos h]

/-- Pushes values of their widths in order. -/
def pushAll (items : List (UInt32 × Width)) : Exec Unit := items.forM fun p => push p.1 p.2

theorem pushAll_cons (v : UInt32) (w : Width) (items : List (UInt32 × Width)) :
    pushAll ((v, w) :: items) = (do push v w; pushAll items) := rfl

theorem pushList_eq_pushAll (w : Width) (vs : List UInt32) :
    pushList w vs = pushAll (vs.map (·, w)) := by
  induction vs with
  | nil => rfl
  | cons v rest ih =>
    rw [pushList, ih, List.map_cons, pushAll_cons]

theorem widths_map (w : Width) (vs : List UInt32) :
    (vs.map (·, w)).map Prod.snd = List.replicate vs.length w := by
  rw [List.map_map]
  exact List.map_const' ..

theorem takesAll_of_pushAll {items : List (UInt32 × Width)} (h : pushAll items m = .ok () m') :
    m.cpu.TakesAll (items.map Prod.snd) := by
  induction items generalizing m with
  | nil => trivial
  | cons p rest ih =>
    obtain ⟨v, w⟩ := p
    rw [pushAll_cons] at h
    obtain ⟨_, m₁, hPush, hRest⟩ := bind_eq_ok.1 h
    rw [push_eq] at hPush
    split at hPush
    · rename_i hMay
      cases hPush
      exact ⟨hMay, ih hRest⟩
    · cases hPush

/-- **Values that the stack segment takes are pushed where installed memory answers. Only their
bytes change, and the stack pointer.** -/
theorem pushAll_apply (items : List (UInt32 × Width))
    (hTakes : m.cpu.TakesAll (items.map Prod.snd))
    (hRoom : frameSize (items.map Prod.snd) ≤ 0x10000)
    (hBacked : ∀ k < frameSize (items.map Prod.snd), m.bus.Backed (m.cpu.stackByte k)) :
    ∃ b, pushAll items m =
        .ok () { m with cpu := m.cpu.lowered (frameSize (items.map Prod.snd)), bus := b } ∧
      Bus.Overwrites (m.cpu.frameBytes m.bus (frameSize (items.map Prod.snd))) m.bus b ∧
      Cpu.HoldsAll b m.cpu items := by
  induction items generalizing m with
  | nil =>
    refine ⟨m.bus, ?_, .refl m.bus, trivial⟩
    change _ = EStateM.Result.ok () { m with cpu := m.cpu.lowered 0 }
    rw [Cpu.lowered_zero]
    rfl
  | cons p rest ih =>
    obtain ⟨v, w⟩ := p
    simp only [List.map_cons, frameSize_cons] at hRoom hBacked ⊢
    let l : Location := .of .ss (m.cpu.lowered w.bytes).stackPointer m.cpu.stack32
    let b₁ := m.cpu.storeBytes m.bus l v w.bytes
    have hSlot (i : Nat) (hi : i < w.bytes) :
        m.cpu.byteAddress l i = m.cpu.stackByte (w.bytes - 1 - i) := m.cpu.byteAddress_lowered hi
    have hSlotBacked : ∀ i < w.bytes, m.bus.Backed (m.cpu.byteAddress l i) := fun i hi => by
      rw [hSlot i hi]
      exact hBacked _ (by omega)
    have hFirst : Bus.Overwrites
        (m.cpu.frameBytes m.bus (w.bytes + frameSize (rest.map Prod.snd))) m.bus b₁ :=
      Cpu.overwrites_storeBytes v (fun i hi => (hSlotBacked i hi).unhooked) fun i hi =>
        ⟨w.bytes - 1 - i, by omega, by rw [hSlot i hi]⟩
    -- the rest goes below the first value
    obtain ⟨b, hPush, hRest, hHolds⟩ := ih (m := pushed m v w) hTakes.2 (by omega) (fun k hk => by
        change b₁.Backed ((m.cpu.lowered w.bytes).stackByte k)
        rw [Cpu.stackByte_lowered]
        exact hFirst.backed (hBacked _ (by omega)))
    have hBelow {a : UInt32} (ha : (m.cpu.lowered w.bytes).frameBytes b₁
        (frameSize (rest.map Prod.snd)) a) :
        ∃ k < frameSize (rest.map Prod.snd),
          a = m.bus.physical (m.cpu.stackByte (w.bytes + k)) := by
      obtain ⟨k, hk, rfl⟩ := ha
      exact ⟨k, hk, by rw [hFirst.physical_eq, Cpu.stackByte_lowered]⟩
    refine ⟨b, ?_, ?_, ?_, hHolds⟩
    · rw [pushAll_cons, bind_of_ok (push_apply hTakes.1 v), hPush, pushed, Cpu.lowered_lowered]
    · refine hFirst.trans (hRest.mono fun a ha => ?_)
      obtain ⟨k, hk, rfl⟩ := hBelow ha
      exact ⟨w.bytes + k, by omega, rfl⟩
    · intro i hi
      have hStored : b₁.read8 (m.cpu.stackByte (w.bytes - 1 - i)) = byteOf v i := by
        rw [← hSlot i hi]
        exact Cpu.read8_storeBytes v hSlotBacked (by omega) hi
      refine (hRest.read8_eq fun ha => ?_).trans hStored
      obtain ⟨k, hk, hSame⟩ := hBelow ha
      exact Cpu.physical_stackByte_ne m.bus m.cpu (by omega) (by omega) (by omega)
        ((hFirst.physical_eq _).symm.trans hSame)

/-! ### Frames of one width -/

theorem pushList_append (w : Width) (vs us : List UInt32) :
    pushList w (vs ++ us) = (do pushList w vs; pushList w us) := by
  induction vs with
  | nil => exact (pure_bind ..).symm
  | cons v rest ih => simp only [List.cons_append, pushList, ih, bind_assoc]

theorem takes_of_pushList {vs : List UInt32} (h : pushList w vs m = .ok () m') :
    m.cpu.Takes w vs.length := by
  rw [pushList_eq_pushAll] at h
  have hTakes := takesAll_of_pushAll h
  rwa [widths_map, Cpu.takesAll_replicate] at hTakes

/-- A frame that was pushed moved the stack pointer, and nothing else in the processor. -/
theorem cpu_of_pushList {vs : List UInt32} (h : pushList w vs m = .ok () m') :
    m'.cpu = m.cpu.lowered (w.bytes * vs.length) := by
  induction vs generalizing m with
  | nil =>
    cases h
    exact (Cpu.lowered_zero _).symm
  | cons v rest ih =>
    obtain ⟨_, m₁, hPush, hRest⟩ := bind_eq_ok.1 h
    rw [push_eq] at hPush
    split at hPush <;> cases hPush
    rw [ih hRest, List.length_cons, Nat.mul_succ, Nat.add_comm]
    exact m.cpu.lowered_lowered w.bytes (w.bytes * rest.length)

/-- **Where a value is refused, the values before it have been pushed.** -/
theorem exists_take_of_pushList {vs : List UInt32} {s : Stop} (h : pushList w vs m = .error s m') :
    s = .fault (.stackFault 0) ∧ ∃ n < vs.length, pushList w (vs.take n) m = .ok () m' := by
  induction vs generalizing m with
  | nil => cases h
  | cons v rest ih =>
    rcases bind_eq_error.1 h with hPush | ⟨_, m₁, hPush, hRest⟩
    · rw [push_eq] at hPush
      split at hPush <;> cases hPush
      exact ⟨rfl, 0, Nat.succ_pos _, rfl⟩
    · obtain ⟨rfl, n, hn, hBefore⟩ := ih hRest
      exact ⟨rfl, n + 1, Nat.succ_lt_succ hn, (bind_of_ok hPush).trans hBefore⟩

/-- A frame that the stack segment takes is pushed where installed memory answers. Only its bytes
change, and the stack pointer. -/
theorem pushList_apply (vs : List UInt32) (hTakes : m.cpu.Takes w vs.length)
    (hRoom : w.bytes * vs.length ≤ 0x10000)
    (hBacked : ∀ k < w.bytes * vs.length, m.bus.Backed (m.cpu.stackByte k)) :
    ∃ b, pushList w vs m =
        .ok () { m with cpu := m.cpu.lowered (w.bytes * vs.length), bus := b } ∧
      Bus.Overwrites (m.cpu.frameBytes m.bus (w.bytes * vs.length)) m.bus b ∧
      Cpu.Holds b w m.cpu vs := by
  have hPushed := pushAll_apply (m := m) (vs.map (·, w))
  rw [widths_map, frameSize_replicate, Cpu.takesAll_replicate, ← pushList_eq_pushAll] at hPushed
  obtain ⟨b, hPush, hOver, hHolds⟩ := hPushed hTakes hRoom hBacked
  exact ⟨b, hPush, hOver, Cpu.holdsAll_map.1 hHolds⟩

/-! ### Popping -/

/-- Pops values of these widths, the first one popped first. -/
def popAll (ws : List Width) : Exec (List UInt32) := ws.mapM pop

theorem popList_eq_popAll (w : Width) (n : Nat) (acc : List UInt32) :
    popList w n acc = (do let vs ← popAll (List.replicate n w); return vs.reverse ++ acc) := by
  induction n generalizing acc with
  | zero => exact (pure_bind ..).symm
  | succ n ih =>
    simp only [popList, ih, popAll, List.replicate_succ, List.mapM_cons, bind_assoc, pure_bind,
      List.reverse_cons, List.append_assoc, List.singleton_append]

theorem pop_of_sameStack {v : UInt32}
    (hMode : m.cpu.protectedMode = true → c.protectedMode = true)
    (hMay : c.mayPush w.bytes = true) (hStack : (c.lowered w.bytes).SameStack m.cpu)
    (hBytes : ∀ i < w.bytes, m.bus.read8 (c.stackByte (w.bytes - 1 - i)) = byteOf v i) :
    pop w m = .ok (w.truncate v) (m.withCpu (·.setStackPointer c.stackPointer)) := by
  have hPointer : m.cpu.stackPointer =
      wrapOffset c.stack32 (c.stackPointer - UInt32.ofNat w.bytes) := by
    rw [hStack.stackPointer_eq, Cpu.stackPointer_lowered]
  have hBack : wrapOffset m.cpu.stack32 (m.cpu.stackPointer + UInt32.ofNat w.bytes) =
      c.stackPointer := by
    rw [hStack.stack32_eq, hPointer, Cpu.lowered, Cpu.stack32_setStackPointer, wrapOffset_add,
      UInt32.sub_add_cancel, Cpu.stackPointer, wrapOffset_wrapOffset]
  have hValue : m.cpu.loadBytes m.bus (.of .ss m.cpu.stackPointer m.cpu.stack32) w =
      w.truncate v := by
    refine Cpu.loadBytes_eq fun i hi => ?_
    rw [hStack.byteAddress_eq, hStack.stackPointer_eq, hStack.stack32_eq, ← hBytes i hi,
      ← c.byteAddress_lowered hi]
    rfl
  have hRead : readMem (.of .ss m.cpu.stackPointer m.cpu.stack32) w m = .ok (w.truncate v) m := by
    rw [readMem_eq, if_pos (Cpu.mayAccess_of_mayPush hMode hStack hMay), hValue]
  rw [← hBack]
  exact (bind_of_ok (cpu_apply m)).trans ((bind_of_ok hRead).trans rfl)

/-- **Popping in reverse order returns the values, and the stack pointer goes back to where it
was.** -/
theorem popAll_of_holdsAll (items : List (UInt32 × Width))
    (hMode : m.cpu.protectedMode = c.protectedMode) (hTakes : c.TakesAll (items.map Prod.snd))
    (hStack : (c.lowered (frameSize (items.map Prod.snd))).SameStack m.cpu)
    (hHolds : Cpu.HoldsAll m.bus c items) :
    popAll (items.map Prod.snd).reverse m =
      .ok (items.map fun p => p.2.truncate p.1).reverse
        (m.withCpu (·.setStackPointer c.stackPointer)) := by
  induction items generalizing c with
  | nil =>
    have hPointer : m.cpu.stackPointer = c.stackPointer := by
      rw [hStack.stackPointer_eq]
      exact congrArg Cpu.stackPointer c.lowered_zero
    have hSame : m.withCpu (·.setStackPointer c.stackPointer) = m := by
      rw [Machine.withCpu, ← hPointer, Cpu.setStackPointer_self]
    rw [hSame]
    rfl
  | cons p rest ih =>
    obtain ⟨v, w⟩ := p
    obtain ⟨hBytes, hRest⟩ := hHolds
    let c₁ := c.lowered w.bytes
    let m₁ := m.withCpu (·.setStackPointer c₁.stackPointer)
    -- what was pushed first is popped last
    simp only [List.map_cons, frameSize_cons, ← Cpu.lowered_lowered] at hStack
    have hPop : popAll (rest.map Prod.snd).reverse m =
        .ok (rest.map fun p => p.2.truncate p.1).reverse m₁ :=
      ih (hMode.trans (c.protectedMode_lowered w.bytes).symm) hTakes.2 hStack hRest
    have hMoved : m₁.cpu = m.cpu.withEsp c₁.regs.gprs.esp :=
      Cpu.setStackPointer_of_sameStack hStack
    have hTop : c₁.SameStack m₁.cpu := ⟨congrArg (·.regs.gprs.esp) hMoved, hStack.cache⟩
    have hMode₁ : m₁.cpu.protectedMode = c.protectedMode :=
      (congrArg Cpu.protectedMode hMoved).trans hMode
    have hLast := pop_of_sameStack hMode₁.symm.trans hTakes.1 hTop hBytes
    have hBack : m₁.withCpu (·.setStackPointer c.stackPointer) =
        m.withCpu (·.setStackPointer c.stackPointer) := by
      simp only [m₁, Machine.withCpu, Cpu.setStackPointer_setStackPointer]
    rw [hBack] at hLast
    have hOne : popAll [w] m₁ =
        .ok [w.truncate v] (m.withCpu (·.setStackPointer c.stackPointer)) := by
      rw [popAll, List.mapM_cons, bind_of_ok hLast]
      rfl
    rw [List.map_cons, List.map_cons, List.reverse_cons, List.reverse_cons, popAll,
      List.mapM_append]
    exact (bind_of_ok hPop).trans ((bind_of_ok hOne).trans rfl)

/-- Popping returns the values of a frame, and the stack pointer goes back to where it was. -/
theorem popList_of_holds {vs : List UInt32} (hMode : m.cpu.protectedMode = c.protectedMode)
    (hTakes : c.Takes w vs.length) (hStack : (c.lowered (w.bytes * vs.length)).SameStack m.cpu)
    (hHolds : Cpu.Holds m.bus w c vs) (acc : List UInt32) :
    popList w vs.length acc m =
      .ok (vs.map w.truncate ++ acc) (m.withCpu (·.setStackPointer c.stackPointer)) := by
  have hPopped := popAll_of_holdsAll (vs.map (·, w)) hMode
  rw [widths_map, frameSize_replicate, Cpu.takesAll_replicate, Cpu.holdsAll_map,
    List.reverse_replicate, List.map_map] at hPopped
  rw [popList_eq_popAll, bind_of_ok (hPopped hTakes hStack hHolds), List.reverse_reverse]
  rfl

/-! ### Last in, first out -/

/-- **What was pushed is popped in reverse order. The processor is as before, and so is memory but
for the bytes of the values.** -/
theorem popAll_pushAll {items : List (UInt32 × Width)}
    (hRoom : frameSize (items.map Prod.snd) ≤ 0x10000)
    (hBacked : ∀ k < frameSize (items.map Prod.snd), m.bus.Backed (m.cpu.stackByte k))
    (h : pushAll items m = .ok () m') :
    popAll (items.map Prod.snd).reverse m' =
        .ok (items.map fun p => p.2.truncate p.1).reverse { m with bus := m'.bus } ∧
      Bus.Overwrites (m.cpu.frameBytes m.bus (frameSize (items.map Prod.snd))) m.bus m'.bus := by
  have hTakes := takesAll_of_pushAll h
  obtain ⟨b, hPush, hOver, hHolds⟩ := pushAll_apply items hTakes hRoom hBacked
  cases h.symm.trans hPush
  have hBack (n : Nat) : (m.cpu.lowered n).setStackPointer m.cpu.stackPointer = m.cpu := by
    rw [Cpu.lowered, Cpu.setStackPointer_setStackPointer, Cpu.setStackPointer_self]
  have hPop := popAll_of_holdsAll items (c := m.cpu)
    (m := { m with cpu := m.cpu.lowered (frameSize (items.map Prod.snd)), bus := b })
    (m.cpu.protectedMode_lowered _) hTakes (.refl _) hHolds
  simp only [Machine.withCpu, hBack] at hPop
  exact ⟨hPop, hOver⟩

/-- A double word that wraps, a word and a byte at an odd stack pointer. -/
theorem popAll_pushAll_wrapping :
    let m : Machine :=
      { cpu := { regs := { gprs := { esp := 0xABCD0003 } } }, bus := .ofSize 0 }
    let items : List (UInt32 × Width) :=
      [(0x12345678, .dword), (0xFFFF9ABC, .word), (0x1DE, .byte)]
    frameSize (items.map Prod.snd) ≤ 0x10000 ∧
      (∀ k < frameSize (items.map Prod.snd), m.bus.Backed (m.cpu.stackByte k)) ∧
      ∃ m', pushAll items m = .ok () m' ∧
        popAll [.byte, .word, .dword] m' =
          .ok [0xDE, 0x9ABC, 0x12345678] { m with bus := m'.bus } := by
  intro m items
  have hRoom : frameSize (items.map Prod.snd) ≤ 0x10000 := by decide
  have hSize : m.bus.ram.size = 0x10000 := Ram.size_zeros _
  have hAddress : ∀ k < frameSize (items.map Prod.snd),
      (m.bus.physical (m.cpu.stackByte k)).toNat < 0x10000 := by decide
  have hBacked : ∀ k < frameSize (items.map Prod.snd), m.bus.Backed (m.cpu.stackByte k) :=
    fun k hk => ⟨Bus.windowAt_eq_none rfl _, by rw [hSize]; exact hAddress k hk⟩
  obtain ⟨b, hPush, -⟩ :=
    pushAll_apply items (Cpu.takesAll_of_real (by decide) _) hRoom hBacked
  exact ⟨hRoom, hBacked, _, hPush, (popAll_pushAll hRoom hBacked hPush).1⟩

end Exec

end X86
