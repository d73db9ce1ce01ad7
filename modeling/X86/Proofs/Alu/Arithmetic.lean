import Mathlib.Algebra.Group.Nat.Defs
import X86.Alu.Arithmetic
import X86.Proofs.Alu.Control

/-!
# Addition and subtraction against the integers

The arithmetic unit works on truncated words and reads overflow and adjust off the bits of operands
and result. Here it is compared with exact arithmetic. An operation has three exact results: one on
the operands as unsigned numbers, one on them as signed numbers and one on their low digits. Each of
carry, overflow and adjust says whether one of the three is out of range.

* `Width.toInt_eq`: the signed value is the unsigned one, less all values if the sign bit is set.
* `addWithCarry_eq_sum`, `subWithBorrow_eq_difference`: a word of the width and its carry are
  together the exact result.
* `Exact`, `Exact.sum`, `Exact.difference`: the exact results of `a + b + c` and `a - b - c`.
* `integer_arithmetic`: **addition, subtraction and their one-operand forms are exact**, for every
  width, all operands and all flags.
-/

namespace X86

/-! ### Words as numbers -/

theorem bitAt_xor (x y : UInt32) (n : Nat) : bitAt (x ^^^ y) n = (bitAt x n ^^ bitAt y n) := by
  rw [bitAt, UInt32.toNat_xor, Nat.testBit_xor, bitAt, bitAt]

theorem bitAt_not (v : UInt32) {k : Nat} (hk : k < 32) : bitAt (~~~v) k = !bitAt v k := by
  have hValue : (~~~v).toNat = 2 ^ 32 - (v.toNat + 1) := by
    rw [UInt32.toNat_not, UInt32.size, Nat.sub_sub, Nat.add_comm]
    rfl
  rw [bitAt, hValue, Nat.testBit_two_pow_sub_succ v.toNat_lt, decide_eq_true hk, Bool.true_and,
    bitAt]

theorem testBit_iff (v n : Nat) : v.testBit n = true ↔ v >>> n % 2 = 1 := by
  rw [Nat.testBit_eq_decide_div_mod_eq, ← Nat.shiftRight_eq_div_pow, decide_eq_true_iff]

/-- The upper half of the `V` words of `n` bits is negative. -/
theorem toInt_bits {n : Nat} (x : BitVec n) (half : Nat) {V : Nat} (hV : 2 ^ n = V)
    (hHalf : V = 2 * half) :
    x.toInt = if x.toNat < half then (x.toNat : Int) else x.toNat - V := by
  rw [BitVec.toInt_eq_toNat_cond, hV]
  split <;> split <;> omega

theorem toNat_ofInt (z : Int) : ((UInt32.ofInt z).toNat : Int) = z % 0x100000000 := by
  rw [UInt32.ofInt, UInt32.toNat_ofNat']
  omega

namespace Width

variable (w : Width)

/-- Half the number of values: the weight of the sign bit. -/
def half : Width → Nat
  | byte => 0x80
  | word => 0x8000
  | dword => 0x80000000

theorem bits_pos : 0 < w.bits := by cases w <;> decide

theorem bits_le : w.bits ≤ 32 := by cases w <;> decide

theorem values_eq_half : w.values = 2 * w.half := by cases w <;> rfl

theorem isNegative_iff {v : UInt32} (hv : v.toNat < w.values) :
    w.isNegative v = true ↔ w.half ≤ v.toNat := by
  rw [isNegative, bitAt, testBit_iff]
  cases w <;> simp only [values, half, bits] at hv ⊢ <;> omega

theorem testBit_bits_iff {n : Nat} (hn : n < 2 * w.values) :
    n.testBit w.bits = true ↔ w.values ≤ n := by
  rw [testBit_iff]
  cases w <;> simp only [values, bits] at hn ⊢ <;> omega

theorem isNegative_and (x y : UInt32) :
    w.isNegative (x &&& y) = (w.isNegative x && w.isNegative y) := bitAt_and x y _

theorem isNegative_xor (x y : UInt32) :
    w.isNegative (x ^^^ y) = (w.isNegative x ^^ w.isNegative y) := bitAt_xor x y _

/-- No unsigned word of the width holds the number. -/
def OutOfUnsignedRange (n : Int) : Prop := n < 0 ∨ w.values ≤ n

/-- No signed word of the width holds the number. -/
def OutOfSignedRange (n : Int) : Prop := n < -w.half ∨ w.half ≤ n

/-- The signed value is the unsigned one, less all values if the sign bit is set. -/
theorem toInt_eq (v : UInt32) :
    w.toInt v
      = if (w.truncate v).toNat < w.half then ((w.truncate v).toNat : Int)
        else (w.truncate v).toNat - w.values := by
  rw [toNat_truncate, toInt]
  cases w with
  | byte =>
    rw [signExtend, Int32.toInt32_toUInt32, Int8.toInt_toInt32]
    exact toInt_bits v.toUInt8.toBitVec _ rfl rfl
  | word =>
    rw [signExtend, Int32.toInt32_toUInt32, Int16.toInt_toInt32]
    exact toInt_bits v.toUInt16.toBitVec _ rfl rfl
  | dword =>
    rw [signExtend, values, Nat.mod_eq_of_lt v.toNat_lt]
    exact toInt_bits v.toBitVec _ rfl rfl

theorem sign_cases {v : UInt32} (hv : v.toNat < w.values) :
    w.isNegative v = false ∧ v.toNat < w.half ∧ w.toInt v = v.toNat
      ∨ w.isNegative v = true ∧ w.half ≤ v.toNat ∧ w.toInt v = v.toNat - w.values := by
  have hIff := w.isNegative_iff hv
  rw [toInt_eq, truncate_eq_self hv]
  cases hNeg : w.isNegative v with
  | false =>
    have h : v.toNat < w.half := by rw [hNeg] at hIff; simpa using hIff
    exact .inl ⟨rfl, h, if_pos h⟩
  | true =>
    have h : w.half ≤ v.toNat := by rw [← hIff]; exact hNeg
    exact .inr ⟨rfl, h, if_neg (by omega)⟩

theorem toInt_range (v : UInt32) : -(w.half : Int) ≤ w.toInt v ∧ w.toInt v < w.half := by
  have hv := w.toNat_truncate_lt v
  have hHalf := w.values_eq_half
  rw [toInt_eq]
  split <;> omega

theorem toInt_truncate (v : UInt32) : w.toInt (w.truncate v) = w.toInt v := by
  rw [toInt_eq, toInt_eq, truncate_truncate]

/-- Words of the width are known by their signed values. -/
theorem toInt_inj {x y : UInt32} : w.toInt x = w.toInt y ↔ w.truncate x = w.truncate y := by
  have hx := w.toNat_truncate_lt x
  have hy := w.toNat_truncate_lt y
  rw [toInt_eq, toInt_eq, ← UInt32.toNat_inj]
  split <;> split <;> omega

/-- A number in range reads back from its word. -/
theorem toInt_truncate_ofInt {x : Int} (hLow : -(w.half : Int) ≤ x) (hHigh : x < w.half) :
    w.toInt (w.truncate (UInt32.ofInt x)) = x := by
  have hNat := toNat_ofInt x
  rw [toInt_truncate, toInt_eq, toNat_truncate]
  cases w <;> simp only [half, values] at hLow hHigh ⊢ <;> omega

theorem toInt_neg_iff {v : UInt32} (hv : v.toNat < w.values) :
    w.toInt v < 0 ↔ w.isNegative v = true := by
  rw [isNegative_iff w hv, toInt_eq, truncate_eq_self hv]
  split <;> omega

end Width

/-! ### What the flags say about a result -/

namespace Flags

theorem foldl_xor_eq (p : Nat → Bool) (l : List Nat) (b : Bool) :
    l.foldl (fun even n => xor even (p n)) b = (b ^^ decide (l.countP p % 2 = 1)) := by
  induction l generalizing b with
  | nil => simp
  | cons n l ih =>
    rw [List.foldl_cons, ih]
    cases hn : p n with
    | false => rw [List.countP_cons_of_neg (by simp [hn]), Bool.xor_false]
    | true =>
      have hFlip : (l.countP p + 1) % 2 = 1 ↔ ¬ l.countP p % 2 = 1 := by omega
      rw [List.countP_cons_of_pos hn, decide_eq_decide.2 hFlip, decide_not, Bool.xor_assoc,
        Bool.true_xor]

theorem evenParity_iff (v : UInt32) :
    evenParity v = true ↔ (List.range 8).countP (bitAt v) % 2 = 0 := by
  rw [evenParity, foldl_xor_eq]
  simp only [Bool.true_xor, Bool.not_eq_true', decide_eq_false_iff_not]
  omega

/-- Zero, sign and parity describe the value `v` of width `w`. -/
structure Describes (f : Flags) (w : Width) (v : UInt32) : Prop where
  zero : f.zero = true ↔ v.toNat = 0
  sign : f.sign = true ↔ w.toInt v < 0
  parity : f.parity = true ↔ (List.range 8).countP (bitAt v) % 2 = 0

theorem Describes.congr {f g : Flags} {w : Width} {v : UInt32} (h : f.Describes w v)
    (hZero : g.zero = f.zero) (hSign : g.sign = f.sign) (hParity : g.parity = f.parity) :
    g.Describes w v :=
  ⟨hZero ▸ h.zero, hSign ▸ h.sign, hParity ▸ h.parity⟩

theorem describes_setResult (f : Flags) {w : Width} {v : UInt32} (hv : v.toNat < w.values) :
    (f.setResult w v).Describes w v where
  zero := by
    show (w.truncate v == 0) = true ↔ _
    rw [Width.truncate_eq_self hv, beq_iff_eq, ← UInt32.toNat_inj, UInt32.toNat_zero]
  sign := (w.toInt_neg_iff hv).symm
  parity := evenParity_iff v

end Flags

/-! ### One word and its carry -/

namespace Alu

variable (w : Width) (a b : UInt32) (c : Bool) (f : Flags)

/-- One word is cut off the sum exactly if there is a carry. -/
theorem addWithCarry_eq_sum :
    (addWithCarry w a b c f).1.toNat + (addWithCarry w a b c f).2.carry.toNat * w.values
      = (w.truncate a).toNat + (w.truncate b).toNat + c.toNat := by
  have ha := w.toNat_truncate_lt a
  have hb := w.toNat_truncate_lt b
  have hc := c.toNat_le
  simp only [addWithCarry]
  generalize hs : (w.truncate a).toNat + (w.truncate b).toNat + c.toNat = s
  have hCarry : s.testBit w.bits = decide (w.values ≤ s) :=
    Bool.eq_iff_iff.2 ((w.testBit_bits_iff (by omega)).trans decide_eq_true_iff.symm)
  rw [Width.toNat_truncate, UInt32.toNat_ofNat', hCarry]
  by_cases h : w.values ≤ s
  · rw [decide_eq_true h]
    cases w <;> simp only [Width.values, Bool.toNat_true] at ha hb h ⊢ <;> omega
  · rw [decide_eq_false h]
    cases w <;> simp only [Width.values, Bool.toNat_false] at h ⊢ <;> omega

/-- One word is added to the difference exactly if there is a borrow. -/
theorem subWithBorrow_eq_difference :
    (subWithBorrow w a b c f).1.toNat + (w.truncate b).toNat + c.toNat
      = (w.truncate a).toNat + (subWithBorrow w a b c f).2.carry.toNat * w.values := by
  have ha := w.toNat_truncate_lt a
  have hb := w.toNat_truncate_lt b
  have hc := c.toNat_le
  have hc' : c.toUInt32.toNat = c.toNat := by cases c <;> rfl
  simp only [subWithBorrow]
  rw [Width.toNat_truncate, UInt32.toNat_sub, UInt32.toNat_sub, hc']
  generalize (w.truncate a).toNat = x at ha ⊢
  generalize (w.truncate b).toNat = y at hb ⊢
  by_cases h : x < y + c.toNat
  · rw [decide_eq_true h]
    cases w <;> simp only [Width.values, Bool.toNat_true] at ha hb ⊢ <;> omega
  · rw [decide_eq_false h]
    cases w <;> simp only [Width.values, Bool.toNat_false] at ha hb ⊢ <;> omega

/-! ### Overflow and adjust -/

variable {x y r : UInt32} {k : Bool}

/-- The sign bits tell whether a word shows the signed sum or misses it by all values. -/
theorem overflow_cases (hx : x.toNat < w.values) (hy : y.toNat < w.values)
    (hr : r.toNat < w.values)
    (hEq : r.toNat + k.toNat * w.values = x.toNat + y.toNat + c.toNat) :
    w.isNegative ((r ^^^ x) &&& (r ^^^ y)) = false ∧ w.toInt x + w.toInt y + c.toNat = w.toInt r
      ∨ w.isNegative ((r ^^^ x) &&& (r ^^^ y)) = true
        ∧ (w.toInt x + w.toInt y + c.toNat = w.toInt r + w.values
          ∨ w.toInt x + w.toInt y + c.toNat = w.toInt r - w.values) := by
  have hc := c.toNat_le
  have hHalf := w.values_eq_half
  rw [w.isNegative_and, w.isNegative_xor, w.isNegative_xor]
  obtain ⟨hx₁, hx₂, hx₃⟩ | ⟨hx₁, hx₂, hx₃⟩ := w.sign_cases hx <;>
    obtain ⟨hy₁, hy₂, hy₃⟩ | ⟨hy₁, hy₂, hy₃⟩ := w.sign_cases hy <;>
    obtain ⟨hr₁, hr₂, hr₃⟩ | ⟨hr₁, hr₂, hr₃⟩ := w.sign_cases hr <;>
    simp only [hx₁, hy₁, hr₁, Bool.xor_self, Bool.xor_true, Bool.xor_false, Bool.not_false,
      Bool.and_self, Bool.and_true, Bool.and_false, Bool.false_eq_true, Bool.true_eq_false,
      true_and, false_and, or_false, false_or] <;>
    cases k <;> simp only [Bool.toNat_true, Bool.toNat_false] at hEq <;> omega

theorem low_bits_eq {n : Nat} (hEq : r.toNat + k.toNat * w.values = n) :
    r.toNat % 32 = n % 32 := by
  rw [← hEq]
  cases k <;> cases w <;> simp only [Width.values, Bool.toNat_true, Bool.toNat_false] <;> omega

/-- Bit 4 of a sum differs from that of the two operands exactly if their low digits overflow. -/
theorem adjust_iff (hEq : r.toNat + k.toNat * w.values = x.toNat + y.toNat + c.toNat) :
    bitAt (r ^^^ y ^^^ x) 4 = true ↔ 16 ≤ x.toNat % 16 + y.toNat % 16 + c.toNat := by
  have hc := c.toNat_le
  have hSame := low_bits_eq w hEq
  have hBit (v : UInt32) : bitAt v 4 = decide (v.toNat / 16 % 2 = 1) := by
    rw [bitAt, Nat.testBit_eq_decide_div_mod_eq]
  have hOdd (m n : Nat) :
      (decide (m % 2 = 1) ^^ decide (n % 2 = 1)) = decide ((m + n) % 2 = 1) := by
    rcases Nat.mod_two_eq_zero_or_one m with hm | hm <;>
      rcases Nat.mod_two_eq_zero_or_one n with hn | hn <;> simp [Nat.add_mod, hm, hn]
  rw [bitAt_xor, bitAt_xor, hBit, hBit, hBit, hOdd, hOdd, decide_eq_true_iff]
  omega

end Alu

/-! ### Exact results -/

/-- No hexadecimal digit holds the number. -/
def OutOfDigit (n : Int) : Prop := n < 0 ∨ 16 ≤ n

/-- The result of an operation on integers, once on unsigned operands, once on signed ones and once
on their low digits. -/
structure Exact where
  unsigned : Int
  signed : Int
  digit : Int

namespace Exact

/-- The results of `a + b + c`. -/
def sum (w : Width) (a b : UInt32) (c : Bool) : Exact where
  unsigned := (w.truncate a).toNat + (w.truncate b).toNat + c.toNat
  signed := w.toInt a + w.toInt b + c.toNat
  digit := (w.truncate a).toNat % 16 + (w.truncate b).toNat % 16 + c.toNat

/-- The results of `a - b - c`. -/
def difference (w : Width) (a b : UInt32) (c : Bool) : Exact where
  unsigned := (w.truncate a).toNat - (w.truncate b).toNat - c.toNat
  signed := w.toInt a - w.toInt b - c.toNat
  digit := (w.truncate a).toNat % 16 - (w.truncate b).toNat % 16 - c.toNat

/-- The result `r` of an operation that found the flags `f` shows the exact result `e`, the carry
flag aside. -/
structure Shown (e : Exact) (w : Width) (f : Flags) (r : UInt32 × Flags) : Prop where
  result : (r.1.toNat : Int) = e.unsigned % w.values
  overflow : r.2.overflow = true ↔ w.OutOfSignedRange e.signed
  adjust : r.2.adjust = true ↔ OutOfDigit e.digit
  describes : r.2.Describes w r.1
  control : r.2.SameControl f

/-- The result shows the exact result, and so does its carry flag. -/
structure ShownWithCarry (e : Exact) (w : Width) (f : Flags) (r : UInt32 × Flags) : Prop
    extends e.Shown w f r where
  carry : r.2.carry = true ↔ w.OutOfUnsignedRange e.unsigned

theorem Shown.setCarry {e : Exact} {w : Width} {f : Flags} {r : UInt32 × Flags}
    (h : e.Shown w f r) (carry : Bool) : e.Shown w f (r.1, { r.2 with carry }) where
  result := h.result
  overflow := h.overflow
  adjust := h.adjust
  describes := h.describes.congr rfl rfl rfl
  control := ⟨⟨h.control.iopl, h.control.nestedTask, h.control.resume, h.control.vm, h.control.vif,
    h.control.vip⟩, h.control.trap, h.control.interrupt, h.control.direction⟩

end Exact

namespace Alu

variable (w : Width) (a b : UInt32) (c : Bool) (f : Flags)

section Sum

theorem toNat_addWithCarry :
    ((addWithCarry w a b c f).1.toNat : Int) = (Exact.sum w a b c).unsigned % w.values := by
  have hr : (addWithCarry w a b c f).1.toNat < w.values := w.toNat_truncate_lt _
  have hEq : ((addWithCarry w a b c f).1.toNat
      + (addWithCarry w a b c f).2.carry.toNat * w.values : Int)
      = (w.truncate a).toNat + (w.truncate b).toNat + c.toNat := by
    exact_mod_cast addWithCarry_eq_sum w a b c f
  rw [Exact.sum, ← hEq, Int.add_mul_emod_self_right, Int.emod_eq_of_lt (by omega) (by omega)]

theorem carry_addWithCarry :
    (addWithCarry w a b c f).2.carry = true
      ↔ w.OutOfUnsignedRange (Exact.sum w a b c).unsigned := by
  have hr : (addWithCarry w a b c f).1.toNat < w.values := w.toNat_truncate_lt _
  have hEq := addWithCarry_eq_sum w a b c f
  simp only [Exact.sum, Width.OutOfUnsignedRange]
  cases hCarry : (addWithCarry w a b c f).2.carry with
  | false =>
    rw [hCarry, Bool.toNat_false] at hEq
    simp only [Bool.false_eq_true, false_iff]
    omega
  | true =>
    rw [hCarry, Bool.toNat_true] at hEq
    simp only [true_iff]
    omega

theorem overflow_addWithCarry :
    (addWithCarry w a b c f).2.overflow = true
      ↔ w.OutOfSignedRange (Exact.sum w a b c).signed := by
  have hr : (addWithCarry w a b c f).1.toNat < w.values := w.toNat_truncate_lt _
  have hRange := w.toInt_range (addWithCarry w a b c f).1
  have hHalf := w.values_eq_half
  have hCases := overflow_cases w c (w.toNat_truncate_lt a) (w.toNat_truncate_lt b) hr
    (addWithCarry_eq_sum w a b c f)
  rw [w.toInt_truncate, w.toInt_truncate] at hCases
  simp only [Exact.sum, Width.OutOfSignedRange]
  obtain ⟨hFlag, hSum⟩ | ⟨hFlag, hSum⟩ := hCases
  · rw [show (addWithCarry w a b c f).2.overflow = false from hFlag]
    simp only [Bool.false_eq_true, false_iff]
    omega
  · rw [show (addWithCarry w a b c f).2.overflow = true from hFlag]
    simp only [true_iff]
    omega

theorem adjust_addWithCarry :
    (addWithCarry w a b c f).2.adjust = true ↔ OutOfDigit (Exact.sum w a b c).digit := by
  have hAdjust := adjust_iff w c (addWithCarry_eq_sum w a b c f)
  simp only [Exact.sum, OutOfDigit]
  exact hAdjust.trans (by omega)

/-- Addition shows the exact sum. -/
theorem shown_addWithCarry :
    (Exact.sum w a b c).ShownWithCarry w f (addWithCarry w a b c f) where
  result := toNat_addWithCarry w a b c f
  carry := carry_addWithCarry w a b c f
  overflow := overflow_addWithCarry w a b c f
  adjust := adjust_addWithCarry w a b c f
  describes := (f.describes_setResult (w.toNat_truncate_lt _)).congr rfl rfl rfl
  control := sameControl_addWithCarry w a b f c

end Sum

section Difference

theorem toNat_subWithBorrow :
    ((subWithBorrow w a b c f).1.toNat : Int) = (Exact.difference w a b c).unsigned % w.values := by
  have hr : (subWithBorrow w a b c f).1.toNat < w.values := w.toNat_truncate_lt _
  have hEq : ((subWithBorrow w a b c f).1.toNat + (w.truncate b).toNat + c.toNat : Int)
      = (w.truncate a).toNat + (subWithBorrow w a b c f).2.carry.toNat * w.values := by
    exact_mod_cast subWithBorrow_eq_difference w a b c f
  have hDiff : ((w.truncate a).toNat - (w.truncate b).toNat - c.toNat : Int)
      = (subWithBorrow w a b c f).1.toNat
        + -((subWithBorrow w a b c f).2.carry.toNat : Int) * w.values := by
    rw [Int.neg_mul]
    omega
  rw [Exact.difference, hDiff, Int.add_mul_emod_self_right,
    Int.emod_eq_of_lt (by omega) (by omega)]

theorem carry_subWithBorrow :
    (subWithBorrow w a b c f).2.carry = true
      ↔ w.OutOfUnsignedRange (Exact.difference w a b c).unsigned := by
  have ha := w.toNat_truncate_lt a
  have hCarry : (subWithBorrow w a b c f).2.carry = true
      ↔ (w.truncate a).toNat < (w.truncate b).toNat + c.toNat := decide_eq_true_iff
  simp only [Exact.difference, Width.OutOfUnsignedRange]
  exact hCarry.trans (by omega)

theorem overflow_subWithBorrow :
    (subWithBorrow w a b c f).2.overflow = true
      ↔ w.OutOfSignedRange (Exact.difference w a b c).signed := by
  have hr : (subWithBorrow w a b c f).1.toNat < w.values := w.toNat_truncate_lt _
  have hRange := w.toInt_range (subWithBorrow w a b c f).1
  have hHalf := w.values_eq_half
  -- the difference is the word whose sum with `b` and the borrow gives `a`
  have hCases := overflow_cases w c hr (w.toNat_truncate_lt b) (w.toNat_truncate_lt a)
    (subWithBorrow_eq_difference w a b c f).symm
  rw [w.toInt_truncate, w.toInt_truncate, UInt32.and_comm] at hCases
  simp only [Exact.difference, Width.OutOfSignedRange]
  obtain ⟨hFlag, hSum⟩ | ⟨hFlag, hSum⟩ := hCases
  · rw [show (subWithBorrow w a b c f).2.overflow = false from hFlag]
    simp only [Bool.false_eq_true, false_iff]
    omega
  · rw [show (subWithBorrow w a b c f).2.overflow = true from hFlag]
    simp only [true_iff]
    omega

theorem adjust_subWithBorrow :
    (subWithBorrow w a b c f).2.adjust = true ↔ OutOfDigit (Exact.difference w a b c).digit := by
  have hEq := subWithBorrow_eq_difference w a b c f
  have hc := c.toNat_le
  have hSame := low_bits_eq w hEq.symm
  have hAdjust := adjust_iff w c hEq.symm
  rw [UInt32.xor_comm _ (subWithBorrow w a b c f).1, UInt32.xor_comm (w.truncate a),
    ← UInt32.xor_assoc] at hAdjust
  simp only [Exact.difference, OutOfDigit]
  exact hAdjust.trans (by omega)

/-- Subtraction shows the exact difference. -/
theorem shown_subWithBorrow :
    (Exact.difference w a b c).ShownWithCarry w f (subWithBorrow w a b c f) where
  result := toNat_subWithBorrow w a b c f
  carry := carry_subWithBorrow w a b c f
  overflow := overflow_subWithBorrow w a b c f
  adjust := adjust_subWithBorrow w a b c f
  describes := (f.describes_setResult (w.toNat_truncate_lt _)).congr rfl rfl rfl
  control := sameControl_subWithBorrow w a b f c

end Difference

/-- **Addition, subtraction and their one-operand forms are exact**: for every width, all operands
and all flags, the result is the exact one modulo the number of values, carry, overflow and adjust
say whether the unsigned, the signed and the low-digit result are out of range, zero, sign and
parity describe the result, and no other flag changes. INC and DEC keep the carry flag. -/
theorem integer_arithmetic :
    (Exact.sum w a b false).ShownWithCarry w f (add w a b f)
      ∧ (Exact.sum w a b f.carry).ShownWithCarry w f (adc w a b f)
      ∧ (Exact.difference w a b false).ShownWithCarry w f (sub w a b f)
      ∧ (Exact.difference w a b false).ShownWithCarry w f (binary .cmp w a b f)
      ∧ (Exact.difference w a b f.carry).ShownWithCarry w f (sbb w a b f)
      ∧ ((Exact.sum w a 1 false).Shown w f (inc w a f) ∧ (inc w a f).2.carry = f.carry)
      ∧ ((Exact.difference w a 1 false).Shown w f (dec w a f) ∧ (dec w a f).2.carry = f.carry)
      ∧ (Exact.difference w 0 a false).ShownWithCarry w f (neg w a f) :=
  ⟨shown_addWithCarry w a b false f, shown_addWithCarry w a b f.carry f,
    shown_subWithBorrow w a b false f, shown_subWithBorrow w a b false f,
    shown_subWithBorrow w a b f.carry f,
    ⟨(shown_addWithCarry w a 1 false f).toShown.setCarry _, rfl⟩,
    ⟨(shown_subWithBorrow w a 1 false f).toShown.setCarry _, rfl⟩,
    shown_subWithBorrow w 0 a false f⟩

end Alu

end X86
