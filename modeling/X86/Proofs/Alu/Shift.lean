import X86.Proofs.Alu.Rotate

/-!
# Shifts place by place

A shift by `n` is computed in one go, with a word wide enough for the bits that leave the operand and
with the count cut off at the width. Here it is compared with `n` shifts by one place.

* `testBit_leftWide`: the wide word of `shl`, bit by bit.
* `shr_of_ne_zero`, `sar_of_ne_zero`: the right shifts divide the unsigned and the signed operand.
* `shl_succ`, `shr_succ`, `sar_succ`: one more place is one more shift by one.
* `shift_iterate`: **a member of the shift group with count `n` is `n` applications with count 1**,
  and a rotation back restores the operand.
-/

namespace X86

/-- After many places the overflow flag is that of the last one. For `shr` it is the sign of the
operand, and a whole turn through the carry flag leaves it alone. -/
def ShiftOp.lastOverflow : ShiftOp → Bool
  | rol | ror | shl | sal | sar => true
  | rcl | rcr | shr => false

namespace Alu

variable (w : Width)

/-- The result of a shift: it describes itself and clears adjust. -/
def shifted (f : Flags) (res : UInt32) (carry overflow : Bool) : UInt32 × Flags :=
  (res, { f.setResult w res with carry, overflow, adjust := false })

/-! ### Left shifts -/

/-- The operand of `shl` after `n` places, with the bits that have left it. -/
def leftWide (a : UInt32) (n : Nat) : Nat := if n > w.bits then 0 else a.toNat <<< n

theorem testBit_leftWide (a : UInt32) (n : Nat) {i : Nat} (hi : i ≤ w.bits) :
    (leftWide w a n).testBit i = (decide (n ≤ i) && bitAt a (i - n)) := by
  rw [leftWide]
  split
  · rw [Nat.zero_testBit, decide_eq_false (by omega), Bool.false_and]
  · rw [Nat.testBit_shiftLeft]
    rfl

theorem testBit_leftWide_succ (a : UInt32) (n : Nat) {i : Nat} (hi : i ≤ w.bits) :
    (leftWide w a (n + 1)).testBit i
      = (leftWide w (w.truncate (UInt32.ofNat (leftWide w a n))) 1).testBit i := by
  rw [testBit_leftWide w _ _ hi, testBit_leftWide w _ _ hi]
  by_cases hZero : i = 0
  · rw [hZero, decide_eq_false (by omega), decide_eq_false (by omega), Bool.false_and,
      Bool.false_and]
  · have hPlace : i - (n + 1) = i - 1 - n := by omega
    rw [w.bitAt_truncate_ofNat _ (by omega), testBit_leftWide w _ _ (by omega),
      decide_eq_true (by omega : 1 ≤ i), Bool.true_and, hPlace]
    congr 1
    rw [decide_eq_decide]
    omega

variable (a : UInt32) (n : Nat) (f : Flags)

theorem shl_of_ne_zero (hn : n ≠ 0) :
    shl w a n f
      = shifted w f (w.truncate (UInt32.ofNat (leftWide w (w.truncate a) n)))
        ((leftWide w (w.truncate a) n).testBit w.bits)
        (w.isNegative (w.truncate (UInt32.ofNat (leftWide w (w.truncate a) n)))
          != (leftWide w (w.truncate a) n).testBit w.bits) := by
  rw [shl, if_neg hn]
  rfl

theorem shl_succ (hn : n ≠ 0) :
    shl w a (n + 1) f = shl w (shl w a n f).1 1 (shl w a n f).2 := by
  rw [shl_of_ne_zero w a n f hn, shl_of_ne_zero w _ _ _ n.succ_ne_zero,
    shl_of_ne_zero w _ _ _ Nat.one_ne_zero, testBit_leftWide_succ w _ n (Nat.le_refl _)]
  have hWord : w.truncate (UInt32.ofNat (leftWide w (w.truncate a) (n + 1)))
      = w.truncate (UInt32.ofNat
        (leftWide w (w.truncate (UInt32.ofNat (leftWide w (w.truncate a) n))) 1)) := by
    refine w.eq_of_bitAt_lt (w.toNat_truncate_lt _) (w.toNat_truncate_lt _) fun i hi => ?_
    rw [w.bitAt_truncate_ofNat _ hi, w.bitAt_truncate_ofNat _ hi,
      testBit_leftWide_succ w _ n (Nat.le_of_lt hi)]
  rw [hWord]
  simp only [shifted, Width.truncate_truncate]
  rfl

/-! ### Right shifts -/

theorem shr_of_ne_zero (hn : n ≠ 0) :
    shr w a n f
      = shifted w f (UInt32.ofNat ((w.truncate a).toNat >>> n)) (bitAt (w.truncate a) (n - 1))
        (w.isNegative (w.truncate a)) := by
  have ha := w.toNat_truncate_lt a
  -- the guard changes nothing: so many places leave no bit
  have hLast : (if n > w.bits then 0 else (w.truncate a).toNat >>> (n - 1))
      = (w.truncate a).toNat >>> (n - 1) := by
    split
    · next h =>
      rw [w.values_eq, Nat.one_shiftLeft] at ha
      have hPow := Nat.pow_le_pow_right (by decide : 0 < 2) (by omega : w.bits ≤ n - 1)
      exact (Nat.shiftRight_eq_zero _ _ (Nat.lt_of_lt_of_le ha hPow)).symm
    · rfl
  have hWord : (w.truncate a).toNat >>> (n - 1) >>> 1 = (w.truncate a).toNat >>> n := by
    rw [← Nat.shiftRight_add, Nat.sub_add_cancel (Nat.pos_of_ne_zero hn)]
  have hCarry : ((w.truncate a).toNat >>> (n - 1)).testBit 0 = bitAt (w.truncate a) (n - 1) := by
    rw [Nat.testBit_shiftRight]
    rfl
  simp only [shr, if_neg hn, hLast, hWord, hCarry]
  rfl

theorem shr_succ (hn : n ≠ 0) :
    withoutOverflow (shr w a (n + 1) f)
      = withoutOverflow (shr w (shr w a n f).1 1 (shr w a n f).2) := by
  have ha := w.toNat_truncate_lt a
  have hLe : (w.truncate a).toNat >>> n ≤ (w.truncate a).toNat := Nat.shiftRight_le _ _
  have hWord : (UInt32.ofNat ((w.truncate a).toNat >>> n)).toNat = (w.truncate a).toNat >>> n := by
    rw [UInt32.toNat_ofNat', Nat.mod_eq_of_lt (Nat.lt_of_le_of_lt hLe (w.truncate a).toNat_lt)]
  have hFits : w.truncate (UInt32.ofNat ((w.truncate a).toNat >>> n))
      = UInt32.ofNat ((w.truncate a).toNat >>> n) :=
    Width.truncate_eq_self (by omega)
  have hCarry : bitAt (UInt32.ofNat ((w.truncate a).toNat >>> n)) 0 = bitAt (w.truncate a) n := by
    rw [bitAt, hWord, Nat.testBit_shiftRight]
    rfl
  rw [shr_of_ne_zero w a n f hn, shr_of_ne_zero w _ _ _ n.succ_ne_zero,
    shr_of_ne_zero w _ _ _ Nat.one_ne_zero]
  simp only [shifted, hFits, hWord, Nat.sub_self, hCarry]
  rfl

/-! ### Signed right shifts -/

theorem shiftRight_succ_eq_half (t : Int) (n : Nat) : t >>> (n + 1) = t >>> n / 2 := by
  rw [Int.shiftRight_add, Int.shiftRight_eq_div_pow _ 1]
  rfl

theorem toInt_shiftRight_range :
    -(w.half : Int) ≤ w.toInt a >>> n ∧ w.toInt a >>> n < w.half := by
  induction n with
  | zero =>
    rw [Int.shiftRight_zero]
    exact w.toInt_range a
  | succ n ih =>
    rw [shiftRight_succ_eq_half]
    omega

/-- From the last place on, only copies of the sign are left. -/
theorem toInt_shiftRight_of_le (hn : w.bits - 1 ≤ n) :
    w.toInt a >>> n = if w.toInt a < 0 then -1 else 0 := by
  obtain ⟨hLow, hHigh⟩ := w.toInt_range a
  have hHalf : w.half = 2 ^ (w.bits - 1) := by cases w <;> rfl
  have hPow : w.half ≤ 2 ^ n := hHalf ▸ Nat.pow_le_pow_right (by decide) hn
  have hHalfPos : 0 < w.half := by cases w <;> decide
  rw [Int.shiftRight_eq_div_pow]
  generalize (2 ^ n : Nat) = p at hPow ⊢
  have hPos : (0 : Int) < p := by omega
  split
  · have hUnique := Int.ediv_emod_unique (a := w.toInt a) (r := w.toInt a + p) (q := -1) hPos
    exact (hUnique.2 ⟨by omega, by omega, by omega⟩).1
  · exact Int.ediv_eq_zero_of_lt (by omega) (by omega)

/-- The guard changes nothing, since copies of the sign are all that is left. -/
theorem sar_of_ne_zero (hn : n ≠ 0) :
    sar w a n f
      = shifted w f (w.truncate (UInt32.ofInt (w.toInt a >>> n)))
        (w.toInt a >>> (n - 1) % 2 == 1) false := by
  have hLast : w.toInt a >>> (min n w.bits - 1) = w.toInt a >>> (n - 1) := by
    rcases Nat.le_total n w.bits with h | h
    · rw [Nat.min_eq_left h]
    · rw [Nat.min_eq_right h, toInt_shiftRight_of_le w a _ (Nat.le_refl _),
        toInt_shiftRight_of_le w a _ (Nat.sub_le_sub_right h 1)]
  have hWord : w.toInt a >>> (n - 1) / 2 = w.toInt a >>> n := by
    rw [← shiftRight_succ_eq_half, Nat.sub_add_cancel (Nat.pos_of_ne_zero hn)]
  simp only [sar, if_neg hn, w.toInt_truncate, hLast, hWord]
  rfl

theorem sar_succ (hn : n ≠ 0) :
    sar w a (n + 1) f = sar w (sar w a n f).1 1 (sar w a n f).2 := by
  obtain ⟨hLow, hHigh⟩ := toInt_shiftRight_range w a n
  rw [sar_of_ne_zero w a n f hn, sar_of_ne_zero w _ _ _ n.succ_ne_zero,
    sar_of_ne_zero w _ _ _ Nat.one_ne_zero]
  simp only [shifted, w.toInt_truncate_ofInt hLow hHigh, ← Int.shiftRight_add, Nat.sub_self]
  rfl

/-! ### The group -/

/-- A member of the group by `n` places. -/
def moved : ShiftOp → Width → UInt32 → Nat → Flags → UInt32 × Flags
  | .rol => rol
  | .ror => ror
  | .rcl => rcl
  | .rcr => rcr
  | .shl | .sal => shl
  | .shr => shr
  | .sar => sar

variable (op : ShiftOp)

theorem moved_zero : moved op w a 0 f = (w.truncate a, f) := by
  cases op with
  | rcl => simp only [moved, rcl, Nat.zero_mod, if_pos]
  | rcr => simp only [moved, rcr, Nat.zero_mod, if_pos]
  | rol | ror | shl | shr | sal | sar => rfl

/-- No member reads the operand above the width. -/
theorem moved_truncate : moved op w (w.truncate a) n f = moved op w a n f := by
  cases op <;>
    simp only [moved, rol, ror, rcl, rcr, shl, shr, sar, w.truncate_truncate, w.toInt_truncate]

theorem moved_one : moved op w a 1 f = moved op w (moved op w a 0 f).1 1 (moved op w a 0 f).2 := by
  rw [moved_zero]
  exact (moved_truncate w a 1 f op).symm

/-- One more place is one more shift by one. -/
theorem moved_succ (hOp : op.lastOverflow = true) :
    moved op w a (n + 1) f = moved op w (moved op w a n f).1 1 (moved op w a n f).2 := by
  by_cases hn : n = 0
  · rw [hn]
    exact moved_one w a f op
  · cases op with
    | rol => exact rol_succ w a n f hn
    | ror => exact ror_succ w a n f hn
    | shl | sal => exact shl_succ w a n f hn
    | sar => exact sar_succ w a n f hn
    | rcl | rcr | shr => exact absurd hOp Bool.false_ne_true

theorem withoutOverflow_moved_succ :
    withoutOverflow (moved op w a (n + 1) f)
      = withoutOverflow (moved op w (moved op w a n f).1 1 (moved op w a n f).2) := by
  by_cases hn : n = 0
  · rw [hn]
    exact congrArg withoutOverflow (moved_one w a f op)
  · cases op with
    | rcl => exact rcl_succ w a n f
    | rcr => exact rcr_succ w a n f
    | shr => exact shr_succ w a n f hn
    | rol | ror | shl | sal | sar => exact congrArg withoutOverflow (moved_succ w a n f _ rfl)

/-- No member reads the overflow flag. -/
theorem withoutOverflow_moved :
    withoutOverflow (moved op w a n f)
      = withoutOverflow (moved op w a n { f with overflow := false }) := by
  cases op with
  | rcl => rw [moved, rcl_eq, rcl_eq]; rfl
  | rcr => rw [moved, rcr_eq, rcr_eq]; rfl
  | rol => rw [moved, rol, rol]; split <;> rfl
  | ror => rw [moved, ror, ror]; split <;> rfl
  | shl | sal => rw [moved, shl, shl]; split <;> rfl
  | shr => rw [moved, shr, shr]; split <;> rfl
  | sar => rw [moved, sar, sar]; split <;> rfl

theorem withoutOverflow_moved_congr {r s : UInt32 × Flags}
    (h : withoutOverflow r = withoutOverflow s) :
    withoutOverflow (moved op w r.1 n r.2) = withoutOverflow (moved op w s.1 n s.2) := by
  obtain ⟨hWord, hFlags⟩ := Prod.mk.inj h
  rw [withoutOverflow_moved, hWord, hFlags, ← withoutOverflow_moved]

/-- One place of a member of the group. -/
def onePlace (op : ShiftOp) (m : Features) (w : Width) (r : UInt32 × Flags) : UInt32 × Flags :=
  shift op m w r.1 1 r.2

variable (m : Features)

theorem shift_eq_moved (count : UInt32) :
    shift op m w a count f = moved op w a (effectiveCount m count) f := by
  cases op <;> rfl

theorem effectiveCount_one : effectiveCount m 1 = 1 := by
  rw [effectiveCount]
  split <;> rfl

theorem onePlace_eq_moved (r : UInt32 × Flags) : onePlace op m w r = moved op w r.1 1 r.2 := by
  rw [onePlace, shift_eq_moved, effectiveCount_one]

theorem moved_eq_iterate (hOp : op.lastOverflow = true) :
    moved op w a n f = (onePlace op m w)^[n] (w.truncate a, f) := by
  induction n with
  | zero => exact moved_zero w a f op
  | succ n ih =>
    rw [Function.iterate_succ_apply', ← ih, onePlace_eq_moved, moved_succ w a n f op hOp]

theorem withoutOverflow_moved_eq_iterate :
    withoutOverflow (moved op w a n f)
      = withoutOverflow ((onePlace op m w)^[n] (w.truncate a, f)) := by
  induction n with
  | zero => rw [moved_zero]; rfl
  | succ n ih =>
    rw [Function.iterate_succ_apply', onePlace_eq_moved, withoutOverflow_moved_succ,
      withoutOverflow_moved_congr w 1 op ih]

/-- A shift by a count is as many shifts by one: the result and all flags but overflow are the same,
and so is overflow where it is that of the last place. No place changes nothing. A rotation back by
the same count restores the operand, and through the carry flag also that flag. -/
theorem shift_iterate (a count : UInt32) (f : Flags) :
    (∀ op, withoutOverflow (shift op m w a count f)
        = withoutOverflow ((onePlace op m w)^[effectiveCount m count] (w.truncate a, f)))
      ∧ (∀ op, op.lastOverflow = true →
        shift op m w a count f = (onePlace op m w)^[effectiveCount m count] (w.truncate a, f))
      ∧ (effectiveCount m count = 0 → ∀ op, shift op m w a count f = (w.truncate a, f))
      ∧ (∀ g, (shift .ror m w (shift .rol m w a count f).1 count g).1 = w.truncate a)
      ∧ (let turned := shift .rcl m w a count f
        let back := shift .rcr m w turned.1 count turned.2
        back.1 = w.truncate a ∧ back.2.carry = f.carry) := by
  refine ⟨fun op => ?_, fun op hOp => ?_, fun hZero op => ?_, fun g => ?_, ?_⟩
  · rw [shift_eq_moved]
    exact withoutOverflow_moved_eq_iterate w a _ f op m
  · rw [shift_eq_moved]
    exact moved_eq_iterate w a _ f op m hOp
  · rw [shift_eq_moved, hZero, moved_zero]
  · exact ror_rol w a (effectiveCount m count) f g
  · exact rcr_rcl w a (effectiveCount m count) f

/-- On an 8086 forty signed places leave copies of the sign; on its successors a count of 32 is
none. -/
theorem shift_iterate_forty :
    ShiftOp.lastOverflow .sar = true
      ∧ shift .sar Model.i8086.features .byte 0x85 40 {}
        = (onePlace .sar Model.i8086.features .byte)^[40] (0x85, {})
      ∧ (shift .sar Model.i8086.features .byte 0x85 40 {}).1 = 0xFF
      ∧ effectiveCount Model.i80386.features 32 = 0
      ∧ shift .rcl Model.i80386.features .byte 0x85 32 {} = (0x85, {}) :=
  ⟨rfl, (shift_iterate .byte Model.i8086.features 0x85 40 {}).2.1 .sar rfl, by decide, rfl,
    (shift_iterate .byte Model.i80386.features 0x85 32 {}).2.2.1 rfl .rcl⟩

end Alu

end X86
