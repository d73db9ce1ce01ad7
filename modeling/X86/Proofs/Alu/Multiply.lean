import X86.Alu.Multiply
import X86.Proofs.Alu.Arithmetic

/-!
# Multiplication and division against the integers

A product always fits in twice the width, so a multiplication is exact. A quotient need not fit in
the width; where it does, quotient and remainder make up the dividend.

* `ShowsProduct`: what the answer of a multiplication says of a product.
* `Division`: the quotient is rounded toward zero, and the remainder is what is left.
* `shows_mul`, `shows_imul`: **products are exact, and carry and overflow say whether they fit.**
* `div_eq_none_iff`, `idiv_eq_none_iff`, `division_div`, `division_idiv`: **a division has no answer
  exactly if the divisor is zero or the quotient is out of range, and otherwise it is exact.**
* `div_mul`, `idiv_mul`: dividing a product by one factor gives the other one.
-/

namespace X86

/-- Exactly the 8086 refuses the most negative quotient. -/
theorem Model.idivMinQuotient_eq_false_iff (m : Model) :
    m.features.idivMinQuotient = false ↔ m = .i8086 := by
  cases m <;> simp [features]

/-- The model does not take the number as a signed quotient. -/
def Width.OutOfQuotientRange (w : Width) (m : Model) (n : Int) : Prop :=
  w.OutOfSignedRange n ∨ m = .i8086 ∧ n = -w.half

theorem Width.values_le (w : Width) : w.values ≤ 0x100000000 := by cases w <;> decide

theorem Width.half_le (w : Width) : w.half ≤ 0x80000000 := by cases w <;> decide

namespace Alu

variable (m : Features) (w : Width) (a b : UInt32) (f : Flags)

/-! ### Products -/

/-- The answer of a multiplication reads as `value`; that is the product, and carry and overflow say
whether the product is out of range. -/
structure ShowsProduct (flags : Flags) (value product : Int) (outOfRange : Int → Prop) : Prop where
  exact : value = product
  carry : flags.carry = true ↔ outOfRange product
  overflow : flags.overflow = true ↔ outOfRange product

theorem toNat_mul :
    (mul m w a b f).1.toNat = (w.truncate a).toNat * (w.truncate b).toNat := by
  have ha := Nat.lt_of_lt_of_le (w.toNat_truncate_lt a) w.values_le
  have hb := Nat.lt_of_lt_of_le (w.toNat_truncate_lt b) w.values_le
  exact UInt64.toNat_ofNat_of_lt' (Nat.mul_lt_mul'' ha hb)

/-- The unsigned product is exact. -/
theorem shows_mul :
    ShowsProduct (mul m w a b f).2 (mul m w a b f).1.toNat
      ((w.truncate a).toNat * (w.truncate b).toNat) w.OutOfUnsignedRange := by
  have hExact : ((mul m w a b f).1.toNat : Int) = (w.truncate a).toNat * (w.truncate b).toNat := by
    exact_mod_cast toNat_mul m w a b f
  have hRange : decide (w.values ≤ (w.truncate a).toNat * (w.truncate b).toNat) = true ↔
      w.OutOfUnsignedRange ((w.truncate a).toNat * (w.truncate b).toNat) := by
    rw [decide_eq_true_iff, Width.OutOfUnsignedRange]
    norm_cast
    omega
  exact ⟨hExact, hRange, hRange⟩

/-- A signed product has at most twice the bits of its factors. -/
theorem natAbs_mul_le : (w.toInt a * w.toInt b).natAbs ≤ w.half * w.half := by
  have ha := w.toInt_range a
  have hb := w.toInt_range b
  rw [Int.natAbs_mul]
  exact Nat.mul_le_mul (by omega) (by omega)

theorem toInt_ofInt {n : Int} (hLow : -0x8000000000000000 ≤ n) (hHigh : n < 0x8000000000000000) :
    (UInt64.ofInt n).toInt64.toInt = n := by
  have hNat : (UInt64.ofInt n).toNat = (n % 0x10000000000000000).toNat := by
    rw [UInt64.ofInt, UInt64.toNat_ofNat']
    omega
  change (UInt64.ofInt n).toBitVec.toInt = n
  rw [BitVec.toInt_eq_toNat_cond, UInt64.toNat_toBitVec, hNat]
  split <;> omega

/-- The signed product is exact. -/
theorem shows_imul :
    ShowsProduct (imul m w a b f).2 (imul m w a b f).1.toInt64.toInt (w.toInt a * w.toInt b)
      w.OutOfSignedRange := by
  have hSize := Nat.le_trans (natAbs_mul_le w a b) (Nat.mul_le_mul w.half_le w.half_le)
  have hRange : decide (w.toInt (w.truncate (UInt32.ofInt (w.toInt a * w.toInt b))) ≠
      w.toInt a * w.toInt b) = true ↔ w.OutOfSignedRange (w.toInt a * w.toInt b) := by
    rw [decide_eq_true_iff, Width.OutOfSignedRange]
    have hCut := w.toInt_range (w.truncate (UInt32.ofInt (w.toInt a * w.toInt b)))
    by_cases hFits : -(w.half : Int) ≤ w.toInt a * w.toInt b ∧ w.toInt a * w.toInt b < w.half
    · rw [w.toInt_truncate_ofInt hFits.1 hFits.2]
      omega
    · omega
  exact ⟨toInt_ofInt (by omega) (by omega), hRange, hRange⟩

/-! ### Quotients -/

/-- `q` and `r` are the quotient of `n` by `d`, rounded toward zero, and the remainder. -/
structure Division (n d q r : Int) : Prop where
  exact : n = q * d + r
  small : r.natAbs < d.natAbs
  sign : r = 0 ∨ r.sign = n.sign

theorem division_tdiv (n : Int) {d : Int} (hd : d ≠ 0) : Division n d (n.tdiv d) (n.tmod d) where
  exact := (Int.tdiv_mul_add_tmod n d).symm
  small := by
    rw [Int.natAbs_tmod]
    exact Nat.mod_lt _ (Int.natAbs_pos.2 hd)
  sign := by
    rw [← Int.sign_eq_zero_iff_zero, Int.sign_tmod]
    split
    · exact .inl rfl
    · exact .inr rfl

variable {n : UInt64} {d q r : UInt32} {k : Int} {model : Model}

/-- An unsigned division has no answer if the divisor is zero or the quotient does not fit. -/
theorem div_eq_none_iff :
    div w n d = none ↔
      (w.truncate d).toNat = 0 ∨ w.values ≤ n.toNat / (w.truncate d).toNat := by
  simp only [div]
  split <;> simp_all

/-- The unsigned quotient and remainder are exact. -/
theorem division_div (h : div w n d = some (q, r)) :
    Division n.toNat (w.truncate d).toNat q.toNat r.toNat := by
  simp only [div] at h
  split at h
  · cases h
  · rename_i hFits
    obtain ⟨hd, hQuotient⟩ := not_or.1 hFits
    cases h
    have hRemainder := Nat.mod_lt n.toNat (Nat.pos_of_ne_zero hd)
    rw [UInt32.toNat_ofNat_of_lt' (Nat.lt_of_lt_of_le (Nat.lt_of_not_le hQuotient) w.values_le),
      UInt32.toNat_ofNat_of_lt' (Nat.lt_trans hRemainder (w.truncate d).toNat_lt)]
    have hDivision := division_tdiv n.toNat (d := (w.truncate d).toNat) (by exact_mod_cast hd)
    rwa [← Int.ofNat_tdiv, ← Int.ofNat_tmod] at hDivision

/-- The bounds of a signed quotient are those of the width; the 8086 leaves the lowest value out. -/
theorem quotient_bounds_iff (x : Int) :
    (x > ((w.values / 2 : Nat) : Int) - 1 ∨
      x < if model.features.idivMinQuotient then -(((w.values / 2 : Nat) : Int) - 1) - 1
        else -(((w.values / 2 : Nat) : Int) - 1)) ↔ w.OutOfQuotientRange model x := by
  have hHalf : w.values / 2 = w.half := by cases w <;> rfl
  rw [Width.OutOfQuotientRange, Width.OutOfSignedRange, ← model.idivMinQuotient_eq_false_iff, hHalf]
  cases model.features.idivMinQuotient with
  | true =>
    rw [if_pos rfl]
    simp only [Bool.true_eq_false, false_and, or_false]
    omega
  | false =>
    rw [if_neg Bool.false_ne_true]
    simp only [true_and]
    omega

theorem idiv_of_out (h : w.toInt d = 0 ∨ w.OutOfQuotientRange model (k.tdiv (w.toInt d))) :
    idiv model.features w k d = none :=
  if_pos (h.imp_right (quotient_bounds_iff w _).2)

theorem idiv_of_in (h : ¬ (w.toInt d = 0 ∨ w.OutOfQuotientRange model (k.tdiv (w.toInt d)))) :
    idiv model.features w k d =
      some (w.truncate (UInt32.ofInt (k.tdiv (w.toInt d))),
        w.truncate (UInt32.ofInt (k.tmod (w.toInt d)))) :=
  if_neg fun h' => h (h'.imp_right (quotient_bounds_iff w _).1)

/-- A signed division has no answer if the divisor is zero or the model does not take the
quotient. -/
theorem idiv_eq_none_iff :
    idiv model.features w k d = none ↔
      w.toInt d = 0 ∨ w.OutOfQuotientRange model (k.tdiv (w.toInt d)) := by
  by_cases h : w.toInt d = 0 ∨ w.OutOfQuotientRange model (k.tdiv (w.toInt d))
  · simp only [idiv_of_out w h, h]
  · simp only [idiv_of_in w h, h, reduceCtorEq]

/-- The signed quotient and remainder are exact. -/
theorem division_idiv (h : idiv model.features w k d = some (q, r)) :
    Division k (w.toInt d) (w.toInt q) (w.toInt r) := by
  have hIn : ¬ (w.toInt d = 0 ∨ w.OutOfQuotientRange model (k.tdiv (w.toInt d))) := by
    rw [← idiv_eq_none_iff, h]
    exact nofun
  cases (idiv_of_in w hIn).symm.trans h
  rw [not_or, Width.OutOfQuotientRange, Width.OutOfSignedRange] at hIn
  have hDivision := division_tdiv k hIn.1
  have hDivisor := w.toInt_range d
  have hSmall := hDivision.small
  rwa [w.toInt_truncate_ofInt (by omega) (by omega),
    w.toInt_truncate_ofInt (by omega) (by omega)]

/-! ### Dividing a product -/

/-- Dividing an unsigned product by one factor gives the other one. -/
theorem div_mul (hb : w.truncate b ≠ 0) :
    div w (mul m w a b f).1 b = some (w.truncate a, 0) := by
  have hPos : 0 < (w.truncate b).toNat :=
    Nat.pos_of_ne_zero fun h => hb (UInt32.toNat_inj.1 h)
  have hFits : ¬ ((w.truncate b).toNat = 0 ∨ w.values ≤ (w.truncate a).toNat) :=
    not_or.2 ⟨Nat.ne_of_gt hPos, Nat.not_le.2 (w.toNat_truncate_lt a)⟩
  simp only [div]
  rw [toNat_mul, Nat.mul_div_cancel _ hPos, Nat.mul_mod_left, if_neg hFits, UInt32.ofNat_toNat]
  rfl

/-- Dividing a signed product by one factor gives the other one, if the model takes it as a
quotient. -/
theorem idiv_mul (hb : w.toInt b ≠ 0) (ha : ¬ (model = .i8086 ∧ w.toInt a = -w.half)) :
    idiv model.features w (w.toInt a * w.toInt b) b = some (w.truncate a, 0) := by
  have hRange := w.toInt_range a
  have hIn : ¬ (w.toInt b = 0 ∨
      w.OutOfQuotientRange model ((w.toInt a * w.toInt b).tdiv (w.toInt b))) := by
    rw [Int.mul_tdiv_cancel _ hb, Width.OutOfQuotientRange, Width.OutOfSignedRange]
    rintro (h | h | h)
    · exact hb h
    · omega
    · exact ha h
  have hBack : w.truncate (UInt32.ofInt (w.toInt a)) = w.truncate a := by
    rw [← w.toInt_inj, ← w.toInt_truncate, w.toInt_truncate_ofInt hRange.1 hRange.2]
  rw [idiv_of_in w hIn, Int.mul_tdiv_cancel _ hb, Int.mul_tmod_left, hBack]
  cases w <;> rfl

end Alu

end X86
