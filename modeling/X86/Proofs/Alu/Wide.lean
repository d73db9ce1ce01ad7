import X86.Proofs.Alu.Chain
import X86.Proofs.Alu.Compare

/-!
# Addition and subtraction of wide numbers

Two numbers of `n` words each are added or subtracted word by word, with the carry flag between the
words. The last word is the only one with a sign, so the flags that it leaves are flags of the whole
numbers: the carry is the `n`-word carry or borrow, overflow and sign are those of the `n`-word
result in two's complement.

* `Width.wide`, `Width.wideInt`: what a list of words stands for, unsigned and signed.
* `wideInt_singleton`, `wideInt_cons`: only the last word carries the sign.
* `WordStep`: what one word of an addition (`s = 1`) or of a subtraction (`s = -1`) does.
* `shown_chain`: the flags after the last word are flags of the whole numbers.
* `wide_arithmetic`: **chains of ADC and of SBB are exact**, and "below" and "less" compare the whole
  numbers after a chain of SBB.
-/

namespace X86

open Alu (chain number number_cons)

/-- A digit below the base does not change how two multiples of the base are ordered. -/
theorem digit_add_lt_iff {z base : Int} (hz : 0 ≤ z) (hlt : z < base) (t k : Int) :
    z + base * t < base * k ↔ t < k := by
  constructor
  · intro h
    by_contra hle
    have hMul : base * k ≤ base * t := mul_le_mul_of_nonneg_left (by omega) (by omega)
    omega
  · intro h
    have hMul : base * (t + 1) ≤ base * k := mul_le_mul_of_nonneg_left (by omega) (by omega)
    rw [mul_add, mul_one] at hMul
    omega

namespace Width

variable (w : Width)

/-- The unsigned number that words of the width stand for, the least significant word first. -/
def wide (xs : List UInt32) : Nat := number w.values (fun x => (w.truncate x).toNat) xs

/-- The same bits as one signed number. -/
def wideInt (xs : List UInt32) : Int := (BitVec.ofNat (w.bits * xs.length) (w.wide xs)).toInt

/-- No signed number of `n` words is `t`. -/
def OutOfWideRange (n : Nat) (t : Int) : Prop :=
  t < -2 ^ (w.bits * n - 1) ∨ 2 ^ (w.bits * n - 1) ≤ t

theorem values_eq_pow : w.values = 2 ^ w.bits := by cases w <;> rfl

theorem values_pow (n : Nat) : w.values ^ n = 2 ^ (w.bits * n) := by
  rw [values_eq_pow, ← pow_mul]

theorem wide_lt (xs : List UInt32) : w.wide xs < 2 ^ (w.bits * xs.length) := by
  have hOne : 1 < w.values := by cases w <;> decide
  have hLt := Nat.ofDigits_lt_base_pow_length (l := xs.map fun x => (w.truncate x).toNat) hOne
    (by
      intro d hd
      obtain ⟨x, -, rfl⟩ := List.mem_map.1 hd
      exact w.toNat_truncate_lt x)
  rw [List.length_map, values_pow] at hLt
  exact hLt

/-- A number of several words is half range exactly if its last word is. -/
theorem halfPow_succ {n : Nat} (hn : n ≠ 0) :
    2 ^ (w.bits * (n + 1) - 1) = w.values * 2 ^ (w.bits * n - 1) := by
  have hPos : 0 < w.bits * n := Nat.mul_pos w.bits_pos (Nat.pos_of_ne_zero hn)
  rw [values_eq_pow, ← pow_add, Nat.mul_succ]
  congr 1
  omega

theorem halfPow_one : 2 ^ (w.bits * 1 - 1) = w.half := by cases w <;> rfl

theorem wideInt_eq {xs : List UInt32} (hne : xs ≠ []) :
    w.wideInt xs
      = if w.wide xs < 2 ^ (w.bits * xs.length - 1) then (w.wide xs : Int)
        else w.wide xs - (2 ^ (w.bits * xs.length) : Nat) := by
  have hPos : 0 < w.bits * xs.length := Nat.mul_pos w.bits_pos (List.length_pos_iff.2 hne)
  have hTwice : 2 ^ (w.bits * xs.length) = 2 * 2 ^ (w.bits * xs.length - 1) :=
    (mul_pow_sub_one hPos.ne' 2).symm
  have hIff : 2 * w.wide xs < 2 ^ (w.bits * xs.length)
      ↔ w.wide xs < 2 ^ (w.bits * xs.length - 1) := by omega
  rw [wideInt, BitVec.toInt_eq_toNat_cond, BitVec.toNat_ofNat, Nat.mod_eq_of_lt (w.wide_lt xs)]
  simp only [hIff]

theorem wideInt_singleton (x : UInt32) : w.wideInt [x] = w.toInt x := by
  have hWide : w.wide [x] = (w.truncate x).toNat := by
    rw [wide, number_cons, Alu.number_nil, Nat.mul_zero, Nat.add_zero]
  rw [wideInt_eq w (List.cons_ne_nil x []), toInt_eq, hWide, List.length_singleton, halfPow_one,
    ← values_pow, Nat.pow_one]

theorem outOfWideRange_one (t : Int) : w.OutOfWideRange 1 t ↔ w.OutOfSignedRange t := by
  have hHalf : (2 : Int) ^ (w.bits * 1 - 1) = w.half := by exact_mod_cast w.halfPow_one
  rw [OutOfWideRange, OutOfSignedRange, hHalf]

theorem outOfWideRange_cons {n : Nat} (hn : n ≠ 0) {z : Int} (hz : 0 ≤ z) (hlt : z < w.values)
    (t : Int) : w.OutOfWideRange (n + 1) (z + w.values * t) ↔ w.OutOfWideRange n t := by
  have hHalf : (2 : Int) ^ (w.bits * (n + 1) - 1) = w.values * 2 ^ (w.bits * n - 1) := by
    exact_mod_cast w.halfPow_succ hn
  rw [OutOfWideRange, OutOfWideRange, hHalf, ← mul_neg, digit_add_lt_iff hz hlt, ← not_lt,
    digit_add_lt_iff hz hlt, not_lt]

/-- Only the last word carries the sign: the words below it are plain digits. -/
theorem wideInt_cons (x : UInt32) {xs : List UInt32} (hne : xs ≠ []) :
    w.wideInt (x :: xs) = (w.truncate x).toNat + w.values * w.wideInt xs := by
  have hx : ((w.truncate x).toNat : Int) < w.values := by exact_mod_cast w.toNat_truncate_lt x
  have hLen : xs.length ≠ 0 := by
    intro h
    exact hne (List.eq_nil_of_length_eq_zero h)
  have hWide : w.wide (x :: xs) = (w.truncate x).toNat + w.values * w.wide xs := number_cons x xs
  have hIff : w.wide (x :: xs) < 2 ^ (w.bits * (x :: xs).length - 1)
      ↔ w.wide xs < 2 ^ (w.bits * xs.length - 1) := by
    rw [List.length_cons, halfPow_succ w hLen, hWide]
    have hDigit := digit_add_lt_iff (Int.natCast_nonneg _) hx (w.wide xs)
      (2 ^ (w.bits * xs.length - 1) : Nat)
    exact_mod_cast hDigit
  rw [wideInt_eq w (List.cons_ne_nil x xs), wideInt_eq w hne]
  simp only [hIff]
  split
  · rw [hWide]
    push_cast
    rfl
  · rw [hWide, ← values_pow, ← values_pow, List.length_cons, Nat.pow_succ']
    push_cast
    ring

end Width

namespace Alu

variable (w : Width)

/-! ### One word -/

/-- What a step on single words does to words and flags. The factor `s` is 1 for a step that adds
and -1 for a step that subtracts. -/
structure WordStep (s : Int) (step : UInt32 → UInt32 → Flags → UInt32 × Flags) : Prop where
  fits : ∀ x y f, (step x y f).1.toNat < w.values
  carry : ∀ x y f, ((step x y f).1.toNat : Int) + s * ((step x y f).2.carry.toNat * w.values)
    = (w.truncate x).toNat + s * ((w.truncate y).toNat + f.carry.toNat)
  overflow : ∀ x y f, (step x y f).2.overflow = true
    ↔ w.OutOfSignedRange (w.toInt x + s * (w.toInt y + f.carry.toNat))
  sign : ∀ x y f, (step x y f).2.sign = true ↔ w.toInt (step x y f).1 < 0
  less : ∀ x y f, Condition.l.holds (step x y f).2 = true
    ↔ w.toInt x + s * (w.toInt y + f.carry.toNat) < 0

theorem wordStep_adc : WordStep w 1 (adc w) where
  fits := fun x y f => w.toNat_truncate_lt _
  carry := by
    intro x y f
    have hSum := addWithCarry_eq_sum w x y f.carry f
    rw [one_mul, one_mul, ← add_assoc]
    exact_mod_cast hSum
  overflow := by
    intro x y f
    rw [one_mul, ← add_assoc]
    exact overflow_addWithCarry w x y f.carry f
  sign := fun x y f => (shown_addWithCarry w x y f.carry f).describes.sign
  less := by
    intro x y f
    rw [one_mul, ← add_assoc]
    exact less_addWithCarry w x y f.carry f

theorem wordStep_sbb : WordStep w (-1) (sbb w) where
  fits := fun x y f => w.toNat_truncate_lt _
  carry := by
    intro x y f
    have hDifference : ((sbb w x y f).1.toNat : Int) + (w.truncate y).toNat + f.carry.toNat
        = (w.truncate x).toNat + (sbb w x y f).2.carry.toNat * w.values := by
      exact_mod_cast subWithBorrow_eq_difference w x y f.carry f
    linear_combination hDifference
  overflow := by
    intro x y f
    rw [neg_one_mul, neg_add, ← add_assoc]
    exact overflow_subWithBorrow w x y f.carry f
  sign := fun x y f => (shown_subWithBorrow w x y f.carry f).describes.sign
  less := by
    intro x y f
    rw [neg_one_mul, neg_add, ← add_assoc]
    exact less_subWithBorrow w x y f.carry f

/-! ### Many words -/

/-- The words and the flags of `r` show an exact signed result `t` that is `n` words wide. -/
structure ShownWide (n : Nat) (t : Int) (r : List UInt32 × Flags) : Prop where
  length : r.1.length = n
  fits : ∀ z ∈ r.1, z.toNat < w.values
  overflow : r.2.overflow = true ↔ w.OutOfWideRange n t
  sign : r.2.sign = true ↔ w.wideInt r.1 < 0
  less : Condition.l.holds r.2 = true ↔ t < 0

variable {w} {s : Int} {step : UInt32 → UInt32 → Flags → UInt32 × Flags}

theorem WordStep.wide_chain (h : WordStep w s step) {xs ys : List UInt32}
    (hLen : xs.length = ys.length) (f : Flags) :
    (w.wide (chain step xs ys f).1 : Int)
        + s * ((chain step xs ys f).2.carry.toNat * w.values ^ xs.length)
      = w.wide xs + s * (w.wide ys + f.carry.toNat) := by
  refine number_chain s (fun _ => True) ?_ hLen (fun _ _ => trivial) (fun _ _ => trivial) f
  intro x y f _ _
  rw [Width.truncate_eq_self (h.fits x y f)]
  exact h.carry x y f

theorem ShownWide.ne_nil {n : Nat} (hn : n ≠ 0) {t : Int} {r : List UInt32 × Flags}
    (h : ShownWide w n t r) : r.1 ≠ [] := by
  intro hNil
  apply hn
  rw [← h.length, hNil, List.length_nil]

/-- A word below the others changes neither overflow nor the signs: it is less than one unit of the
next word. -/
theorem ShownWide.cons {n : Nat} (hn : n ≠ 0) {t : Int} {r : List UInt32 × Flags}
    (h : ShownWide w n t r) {z : UInt32} (hz : z.toNat < w.values) :
    ShownWide w (n + 1) (z.toNat + w.values * t) (z :: r.1, r.2) := by
  have hNonneg : (0 : Int) ≤ z.toNat := Int.natCast_nonneg _
  have hLt : (z.toNat : Int) < w.values := by exact_mod_cast hz
  have hNeg (t : Int) : (z.toNat : Int) + w.values * t < 0 ↔ t < 0 := by
    have hDigit := digit_add_lt_iff hNonneg hLt t 0
    rwa [mul_zero] at hDigit
  constructor
  · rw [List.length_cons, h.length]
  · rw [List.forall_mem_cons]
    exact ⟨hz, h.fits⟩
  · rw [h.overflow, w.outOfWideRange_cons hn hNonneg hLt]
  · rw [h.sign, w.wideInt_cons z (h.ne_nil hn), Width.truncate_eq_self hz, hNeg]
  · rw [h.less, hNeg]

theorem WordStep.shown_single (h : WordStep w s step) (x y : UInt32) (f : Flags) :
    ShownWide w 1 (w.toInt x + s * (w.toInt y + f.carry.toNat))
      ([(step x y f).1], (step x y f).2) := by
  constructor
  · rfl
  · intro z hz
    rw [List.mem_singleton] at hz
    rw [hz]
    exact h.fits x y f
  · rw [h.overflow, w.outOfWideRange_one]
  · rw [h.sign, w.wideInt_singleton]
  · exact h.less x y f

/-- **The flags after the last word are flags of the whole numbers.** -/
theorem WordStep.shown_chain (h : WordStep w s step) {xs ys : List UInt32}
    (hLen : xs.length = ys.length) (hne : xs ≠ []) (f : Flags) :
    ShownWide w xs.length (w.wideInt xs + s * (w.wideInt ys + f.carry.toNat))
      (chain step xs ys f) := by
  induction xs generalizing ys f with
  | nil => exact absurd rfl hne
  | cons x xs ih =>
    cases ys with
    | nil => cases hLen
    | cons y ys =>
      have hRest : xs.length = ys.length := Nat.succ.inj hLen
      by_cases hNil : xs = []
      · -- the last word: what the step says of its own words
        subst hNil
        obtain rfl : ys = [] := List.eq_nil_of_length_eq_zero hRest.symm
        rw [w.wideInt_singleton, w.wideInt_singleton]
        exact h.shown_single x y f
      · have hNil' : ys ≠ [] := by
          intro hy
          rw [hy, List.length_nil] at hRest
          exact hNil (List.eq_nil_of_length_eq_zero hRest)
        have hLength : xs.length ≠ 0 := by
          intro h
          exact hNil (List.eq_nil_of_length_eq_zero h)
        have hWord := h.carry x y f
        have hShown := (ih hRest hNil (step x y f).2).cons hLength (h.fits x y f)
        rw [w.wideInt_cons x hNil, w.wideInt_cons y hNil']
        -- the carry between the words cancels
        have hTotal : ((step x y f).1.toNat : Int)
              + w.values * (w.wideInt xs
                + s * (w.wideInt ys + (step x y f).2.carry.toNat))
            = (w.truncate x).toNat + w.values * w.wideInt xs
              + s * ((w.truncate y).toNat + w.values * w.wideInt ys + f.carry.toNat) := by
          linear_combination hWord
        rw [hTotal] at hShown
        exact hShown

/-! ### Sums and differences -/

/-- The words and flags of `r` are the sum of two wide numbers and of a carry. -/
structure WideSum (w : Width) (xs ys : List UInt32) (c : Bool) (r : List UInt32 × Flags) : Prop
    extends ShownWide w xs.length (w.wideInt xs + w.wideInt ys + c.toNat) r where
  carry : w.wide r.1 + r.2.carry.toNat * 2 ^ (w.bits * xs.length)
    = w.wide xs + w.wide ys + c.toNat

/-- The words and flags of `r` are the difference of two wide numbers, less a borrow. -/
structure WideDifference (w : Width) (xs ys : List UInt32) (c : Bool) (r : List UInt32 × Flags) :
    Prop extends ShownWide w xs.length (w.wideInt xs - w.wideInt ys - c.toNat) r where
  borrow : (w.wide r.1 : Int) - r.2.carry.toNat * 2 ^ (w.bits * xs.length)
    = w.wide xs - w.wide ys - c.toNat
  below_iff : Condition.b.holds r.2 = true ↔ w.wide xs < w.wide ys + c.toNat
  less_iff : Condition.l.holds r.2 = true ↔ w.wideInt xs < w.wideInt ys + c.toNat

theorem wideSum_chain {xs ys : List UInt32} (hLen : xs.length = ys.length) (hne : xs ≠ [])
    (f : Flags) : WideSum w xs ys f.carry (chain (adc w) xs ys f) where
  toShownWide := by
    have hShown := (wordStep_adc w).shown_chain hLen hne f
    rw [one_mul, ← add_assoc] at hShown
    exact hShown
  carry := by
    have hSum := (wordStep_adc w).wide_chain hLen f
    rw [one_mul, one_mul, ← add_assoc, ← Nat.cast_pow, w.values_pow] at hSum
    exact_mod_cast hSum

theorem wideDifference_chain {xs ys : List UInt32} (hLen : xs.length = ys.length) (hne : xs ≠ [])
    (f : Flags) : WideDifference w xs ys f.carry (chain (sbb w) xs ys f) := by
  have hShown := (wordStep_sbb w).shown_chain hLen hne f
  rw [neg_one_mul, neg_add, ← add_assoc] at hShown
  have hBorrow := (wordStep_sbb w).wide_chain hLen f
  rw [neg_one_mul, neg_one_mul, neg_add, ← add_assoc, ← Nat.cast_pow, w.values_pow] at hBorrow
  have hLt := w.wide_lt (chain (sbb w) xs ys f).1
  rw [length_chain hLen] at hLt
  refine ⟨hShown, ?_, ?_, ?_⟩
  · push_cast at hBorrow
    linear_combination hBorrow
  · show (chain (sbb w) xs ys f).2.carry = true ↔ _
    cases hCarry : (chain (sbb w) xs ys f).2.carry with
    | false =>
      rw [hCarry, Bool.toNat_false] at hBorrow
      simp only [Bool.false_eq_true, false_iff]
      omega
    | true =>
      rw [hCarry, Bool.toNat_true] at hBorrow
      simp only [true_iff]
      omega
  · rw [hShown.less]
    omega

/-- **Chains of ADC and of SBB are exact**: for every width, numbers of any number of words and any
carry in, the words and the last carry are the exact sum or difference, overflow and sign are those
of the whole numbers, and after a chain of SBB the conditions "below" and "less" compare them. -/
theorem wide_arithmetic (w : Width) {xs ys : List UInt32} (hLen : xs.length = ys.length)
    (hne : xs ≠ []) (f : Flags) :
    WideSum w xs ys f.carry (chain (adc w) xs ys f)
      ∧ WideDifference w xs ys f.carry (chain (sbb w) xs ys f) :=
  ⟨wideSum_chain hLen hne f, wideDifference_chain hLen hne f⟩

/-- The carry out of the lower byte turns the upper one negative. -/
theorem wide_arithmetic_carried :
    [(0xFF : UInt32), 0x7F].length = [(0x01 : UInt32), 0x00].length ∧ [(0xFF : UInt32), 0x7F] ≠ []
      ∧ WideSum .byte [0xFF, 0x7F] [0x01, 0x00] false
        ([0x00, 0x80], { sign := true, overflow := true, adjust := true })
      ∧ WideDifference .byte [0xFF, 0x7F] [0x01, 0x00] false ([0xFE, 0x7F], {}) := by
  have hSum : chain (adc .byte) [0xFF, 0x7F] [0x01, 0x00] {}
      = ([0x00, 0x80], { sign := true, overflow := true, adjust := true }) := by decide
  have hDifference : chain (sbb .byte) [0xFF, 0x7F] [0x01, 0x00] {} = ([0xFE, 0x7F], {}) := by
    decide
  have h := @wide_arithmetic .byte [0xFF, 0x7F] [0x01, 0x00] rfl (List.cons_ne_nil _ _) {}
  rw [hSum, hDifference] at h
  exact ⟨rfl, List.cons_ne_nil _ _, h⟩

end Alu

end X86
