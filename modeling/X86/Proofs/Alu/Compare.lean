import X86.Condition
import X86.Proofs.Alu.Arithmetic

/-!
# Conditions after a comparison

A comparison is a subtraction of which only the flags are kept, and a condition reads nothing but
flags. The unsigned order of the operands is the borrow. Their signed order is the sign of the exact
difference; the sign flag shows that of the wrapped one, and overflow says whether the two differ.

* `holds_opposite`: half of the sixteen conditions are the negations of the other half.
* `less_addWithCarry`, `less_subWithBorrow`: sign and overflow together give the sign of the exact
  signed result, whatever the carry in.
* `Condition.Relates`: what each condition is meant to say of the operands of a comparison.
* `holds_compare`: **after a comparison every condition means what it says.**
-/

namespace X86

/-! ### Opposite conditions -/

namespace Condition

/-- The condition that holds exactly where `c` does not. -/
def opposite : Condition → Condition
  | o => no
  | no => o
  | b => ae
  | ae => b
  | e => ne
  | ne => e
  | be => a
  | a => be
  | s => ns
  | ns => s
  | p => np
  | np => p
  | l => ge
  | ge => l
  | le => g
  | g => le

theorem holds_opposite (c : Condition) (f : Flags) : c.opposite.holds f = !c.holds f := by
  cases c with
  | o | b | e | s | p => rfl
  | no | ae | ne | ns | np => exact (Bool.not_not _).symm
  | be | a => simp [opposite, holds]
  | l | ge | le | g =>
    simp only [opposite, holds]
    cases f.zero <;> cases f.sign <;> cases f.overflow <;> rfl

/-- What the condition says of `x` and `y` as operands of width `w`. -/
def Relates (w : Width) (x y : UInt32) : Condition → Prop
  | o => w.OutOfSignedRange (w.toInt x - w.toInt y)
  | no => ¬ w.OutOfSignedRange (w.toInt x - w.toInt y)
  | b => (w.truncate x).toNat < (w.truncate y).toNat
  | ae => (w.truncate y).toNat ≤ (w.truncate x).toNat
  | e => w.truncate x = w.truncate y
  | ne => w.truncate x ≠ w.truncate y
  | be => (w.truncate x).toNat ≤ (w.truncate y).toNat
  | a => (w.truncate y).toNat < (w.truncate x).toNat
  | s => w.toInt (x - y) < 0
  | ns => 0 ≤ w.toInt (x - y)
  | p => (List.range 8).countP (bitAt (w.truncate (x - y))) % 2 = 0
  | np => (List.range 8).countP (bitAt (w.truncate (x - y))) % 2 = 1
  | l => w.toInt x < w.toInt y
  | ge => w.toInt y ≤ w.toInt x
  | le => w.toInt x ≤ w.toInt y
  | g => w.toInt y < w.toInt x

theorem relates_opposite (c : Condition) (w : Width) (x y : UInt32) :
    c.opposite.Relates w x y ↔ ¬ c.Relates w x y := by
  cases c with
  | o | e => exact Iff.rfl
  | no | ne =>
    simp only [opposite, Relates]
    exact Classical.not_not.symm
  | s | b | be | l | le | p | ns | ae | a | ge | g | np =>
    simp only [opposite, Relates]
    omega

end Condition

/-! ### Signed order -/

/-- The sign of the exact result is the sign flag, turned round where the result is off by all
values of the width. -/
theorem sign_bne_overflow_iff (values : Int) {total result : Int} {sign overflow : Bool}
    (hSign : sign = true ↔ result < 0)
    (hCases : overflow = false ∧ total = result
      ∨ overflow = true ∧ (total = result + values ∨ total = result - values))
    (hResult : -values ≤ 2 * result ∧ 2 * result < values)
    (hTotal : -values ≤ total ∧ total < values) :
    (sign != overflow) = true ↔ total < 0 := by
  obtain ⟨rfl, hEq⟩ | ⟨rfl, hEq⟩ := hCases
  · rw [Bool.bne_false, hSign, hEq]
  · rw [Bool.bne_true, Bool.not_eq_true', ← Bool.not_eq_true, hSign]
    omega

namespace Alu

variable (w : Width)

section SignedOrder

variable (a b : UInt32) (c : Bool) (f : Flags)

/-- After an addition "less" says that the exact signed sum is negative. -/
theorem less_addWithCarry :
    Condition.l.holds (addWithCarry w a b c f).2 = true ↔ (Exact.sum w a b c).signed < 0 := by
  have hResult := w.toInt_range (addWithCarry w a b c f).1
  have ha := w.toInt_range a
  have hb := w.toInt_range b
  have hc := c.toNat_le
  have hHalf := w.values_eq_half
  have hCases := overflow_cases w c (w.toNat_truncate_lt a) (w.toNat_truncate_lt b)
    (w.toNat_truncate_lt _) (addWithCarry_eq_sum w a b c f)
  rw [w.toInt_truncate a, w.toInt_truncate b] at hCases
  refine sign_bne_overflow_iff w.values (shown_addWithCarry w a b c f).describes.sign hCases
    ?_ ?_
  · omega
  · simp only [Exact.sum]
    omega

/-- After a subtraction "less" says that the exact signed difference is negative. -/
theorem less_subWithBorrow :
    Condition.l.holds (subWithBorrow w a b c f).2 = true
      ↔ (Exact.difference w a b c).signed < 0 := by
  have hr : (subWithBorrow w a b c f).1.toNat < w.values := w.toNat_truncate_lt _
  have hResult := w.toInt_range (subWithBorrow w a b c f).1
  have ha := w.toInt_range a
  have hb := w.toInt_range b
  have hc := c.toNat_le
  have hHalf := w.values_eq_half
  -- the result, `b` and the borrow add up to `a`
  have hCases := overflow_cases w c hr (w.toNat_truncate_lt b) (w.toNat_truncate_lt a)
    (subWithBorrow_eq_difference w a b c f).symm
  rw [w.toInt_truncate a, w.toInt_truncate b, UInt32.and_comm] at hCases
  refine sign_bne_overflow_iff w.values (shown_subWithBorrow w a b c f).describes.sign
    ?_ ?_ ?_
  · obtain ⟨hFlag, hEq⟩ | ⟨hFlag, hEq⟩ := hCases
    · refine .inl ⟨hFlag, ?_⟩
      simp only [Exact.difference]
      omega
    · refine .inr ⟨hFlag, ?_⟩
      simp only [Exact.difference]
      omega
  · omega
  · simp only [Exact.difference]
    omega

end SignedOrder

/-! ### Comparisons -/

variable (x y : UInt32) (f : Flags)

/-- The wrapped difference. -/
theorem fst_compare : (binary .cmp w x y f).1 = w.truncate (x - y) := by
  rw [← UInt32.toNat_inj]
  show (w.truncate (w.truncate x - w.truncate y - 0)).toNat = _
  rw [UInt32.sub_zero, Width.toNat_truncate, Width.toNat_truncate, UInt32.toNat_sub,
    UInt32.toNat_sub, Width.toNat_truncate, Width.toNat_truncate]
  have hy := y.toNat_lt
  cases w <;> simp only [Width.values] <;> omega

theorem e_compare :
    Condition.e.holds (binary .cmp w x y f).2 = true ↔ w.truncate x = w.truncate y := by
  have hx := w.toNat_truncate_lt x
  have hy := w.toNat_truncate_lt y
  have hr : (subWithBorrow w x y false f).1.toNat < w.values := w.toNat_truncate_lt _
  have hEq := subWithBorrow_eq_difference w x y false f
  have hZero : Condition.e.holds (binary .cmp w x y f).2 = true
      ↔ (subWithBorrow w x y false f).1.toNat = 0 :=
    (shown_subWithBorrow w x y false f).describes.zero
  rw [hZero, ← UInt32.toNat_inj]
  cases hCarry : (subWithBorrow w x y false f).2.carry with
  | false =>
    simp only [hCarry, Bool.toNat_false, Nat.zero_mul] at hEq
    omega
  | true =>
    simp only [hCarry, Bool.toNat_true, Bool.toNat_false, Nat.one_mul] at hEq
    omega

theorem b_compare :
    Condition.b.holds (binary .cmp w x y f).2 = true
      ↔ (w.truncate x).toNat < (w.truncate y).toNat := decide_eq_true_iff

theorem be_compare :
    Condition.be.holds (binary .cmp w x y f).2 = true
      ↔ (w.truncate x).toNat ≤ (w.truncate y).toNat := by
  have hOr : Condition.be.holds (binary .cmp w x y f).2 = true
      ↔ Condition.b.holds (binary .cmp w x y f).2 = true
        ∨ Condition.e.holds (binary .cmp w x y f).2 = true := Bool.or_eq_true_iff
  rw [hOr, b_compare, e_compare, ← UInt32.toNat_inj]
  omega

theorem l_compare :
    Condition.l.holds (binary .cmp w x y f).2 = true ↔ w.toInt x < w.toInt y := by
  have hLess : Condition.l.holds (binary .cmp w x y f).2 = true
      ↔ w.toInt x - w.toInt y - (false.toNat : Int) < 0 := less_subWithBorrow w x y false f
  rw [hLess, Bool.toNat_false]
  omega

theorem le_compare :
    Condition.le.holds (binary .cmp w x y f).2 = true ↔ w.toInt x ≤ w.toInt y := by
  have hOr : Condition.le.holds (binary .cmp w x y f).2 = true
      ↔ Condition.e.holds (binary .cmp w x y f).2 = true
        ∨ Condition.l.holds (binary .cmp w x y f).2 = true := Bool.or_eq_true_iff
  rw [hOr, e_compare, l_compare, ← w.toInt_inj]
  omega

theorem s_compare :
    Condition.s.holds (binary .cmp w x y f).2 = true ↔ w.toInt (x - y) < 0 := by
  have hSign : Condition.s.holds (binary .cmp w x y f).2 = true
      ↔ w.toInt (binary .cmp w x y f).1 < 0 :=
    (shown_subWithBorrow w x y false f).describes.sign
  rw [hSign, fst_compare, w.toInt_truncate]

theorem p_compare :
    Condition.p.holds (binary .cmp w x y f).2 = true
      ↔ (List.range 8).countP (bitAt (w.truncate (x - y))) % 2 = 0 := by
  have hParity : Condition.p.holds (binary .cmp w x y f).2 = true
      ↔ (List.range 8).countP (bitAt (binary .cmp w x y f).1) % 2 = 0 :=
    (shown_subWithBorrow w x y false f).describes.parity
  rw [hParity, fst_compare]

theorem o_compare :
    Condition.o.holds (binary .cmp w x y f).2 = true
      ↔ w.OutOfSignedRange (w.toInt x - w.toInt y) := by
  have hOverflow : Condition.o.holds (binary .cmp w x y f).2 = true
      ↔ w.OutOfSignedRange (w.toInt x - w.toInt y - (false.toNat : Int)) :=
    (shown_subWithBorrow w x y false f).overflow
  rw [hOverflow, Bool.toNat_false, Int.natCast_zero, Int.sub_zero]

/-- A condition means what it says if its opposite does. -/
theorem holds_compare_of_opposite {c : Condition}
    (h : c.holds (binary .cmp w x y f).2 = true ↔ c.Relates w x y) :
    c.opposite.holds (binary .cmp w x y f).2 = true ↔ c.opposite.Relates w x y := by
  rw [Condition.holds_opposite, Condition.relates_opposite, ← h, Bool.not_eq_true',
    Bool.not_eq_true]

/-- **After a comparison every condition means what it says**, for every width, all operands and all
flags: the unsigned conditions order the operands as unsigned numbers, the signed ones as signed
numbers, and the negated ones hold exactly where the others do not. -/
theorem holds_compare :
    (∀ c : Condition, c.holds (binary .cmp w x y f).2 = true ↔ c.Relates w x y)
      ∧ ∀ c : Condition,
        c.opposite.holds (binary .cmp w x y f).2 = !c.holds (binary .cmp w x y f).2 := by
  refine ⟨?_, fun c => c.holds_opposite _⟩
  intro c
  cases c with
  | o => exact o_compare w x y f
  | b => exact b_compare w x y f
  | e => exact e_compare w x y f
  | be => exact be_compare w x y f
  | s => exact s_compare w x y f
  | p => exact p_compare w x y f
  | l => exact l_compare w x y f
  | le => exact le_compare w x y f
  | no => exact holds_compare_of_opposite w x y f (o_compare w x y f)
  | ae => exact holds_compare_of_opposite w x y f (b_compare w x y f)
  | ne => exact holds_compare_of_opposite w x y f (e_compare w x y f)
  | a => exact holds_compare_of_opposite w x y f (be_compare w x y f)
  | ns => exact holds_compare_of_opposite w x y f (s_compare w x y f)
  | np => exact holds_compare_of_opposite w x y f (p_compare w x y f)
  | ge => exact holds_compare_of_opposite w x y f (l_compare w x y f)
  | g => exact holds_compare_of_opposite w x y f (le_compare w x y f)

end Alu

end X86
