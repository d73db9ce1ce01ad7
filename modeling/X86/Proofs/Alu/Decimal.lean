import X86.Alu.Decimal
import X86.Proofs.Alu.Arithmetic
import X86.Proofs.Alu.Chain

/-!
# Packed decimal arithmetic

A packed byte holds two decimal digits, one in each half. Bytes are added and subtracted in binary;
the adjustment that follows finds in carry and adjust which of the two digits left its half, and in
the byte which of them left the decimal range, and it corrects both at once.

* `IsPacked`, `packedValue`: packed bytes and the numbers below 100 that they stand for.
* `daa_packed`, `das_packed`: what the adjustments make of a binary sum and of a binary difference of
  packed bytes, a carry or borrow included.
* `packed_arithmetic`: **packed numbers of any length add and subtract exactly**, byte by byte with
  the flags threaded through.
-/

namespace X86

/-- A byte that holds two decimal digits. -/
def IsPacked (v : UInt8) : Prop := v.toNat % 16 ≤ 9 ∧ v.toNat / 16 ≤ 9

instance : DecidablePred IsPacked := fun _ => inferInstanceAs (Decidable (_ ∧ _))

/-- The number that the two digits of a byte spell. -/
def packedValue (v : UInt8) : Nat := 10 * (v.toNat / 16) + v.toNat % 16

namespace Alu

/-- One byte of a packed addition: ADC, then DAA. -/
def addPacked (x y : UInt8) (f : Flags) : UInt8 × Flags :=
  let (z, g) := adc .byte x.toUInt32 y.toUInt32 f
  daa z.toUInt8 g

/-- One byte of a packed subtraction: SBB, then DAS. -/
def subPacked (x y : UInt8) (f : Flags) : UInt8 × Flags :=
  let (z, g) := sbb .byte x.toUInt32 y.toUInt32 f
  das z.toUInt8 g

/-- The number that packed bytes spell, the least significant byte first. -/
def packedNumber (xs : List UInt8) : Nat := number 100 packedValue xs

/-! ### The adjustments -/

theorem toNat_daa (al : UInt8) (f : Flags) :
    (daa al f).1.toNat
      = (al.toNat + 6 * (lowDigitOff al f).toNat + 0x60 * (highDigitOff al f).toNat) % 0x100 := by
  simp only [daa]
  cases lowDigitOff al f <;> cases highDigitOff al f <;> simp [UInt8.toNat_add]

theorem toNat_das (al : UInt8) (f : Flags) :
    ((das al f).1.toNat + 6 * (lowDigitOff al f).toNat + 0x60 * (highDigitOff al f).toNat) % 0x100
      = al.toNat := by
  have hal := al.toNat_lt
  simp only [das]
  cases lowDigitOff al f <;> cases highDigitOff al f <;> simp [UInt8.toNat_sub] <;> omega

section Adjust

variable {x y al : UInt8} {c : Bool} {f : Flags}

/-- The low digits of a sum are out of range exactly if they carry in decimal. -/
theorem lowDigitOff_sum (hx : IsPacked x) (hy : IsPacked y)
    (hSum : al.toNat + f.carry.toNat * 0x100 = x.toNat + y.toNat + c.toNat)
    (hAdjust : f.adjust = true ↔ 16 ≤ x.toNat % 16 + y.toNat % 16 + c.toNat) :
    lowDigitOff al f = true ↔ 10 ≤ x.toNat % 16 + y.toNat % 16 + c.toNat := by
  have hc := c.toNat_le
  have hCarry := f.carry.toNat_le
  obtain ⟨hx₁, -⟩ := hx
  obtain ⟨hy₁, -⟩ := hy
  rw [lowDigitOff, Bool.or_eq_true, decide_eq_true_iff, hAdjust]
  omega

theorem highDigitOff_sum (hSum : al.toNat + f.carry.toNat * 0x100 = x.toNat + y.toNat + c.toNat) :
    highDigitOff al f = true ↔ 0x99 < x.toNat + y.toNat + c.toNat := by
  have hal := al.toNat_lt
  rw [highDigitOff, Bool.or_eq_true, decide_eq_true_iff]
  cases hCarry : f.carry with
  | false =>
    rw [hCarry, Bool.toNat_false] at hSum
    simp only [Bool.false_eq_true, or_false]
    omega
  | true =>
    rw [hCarry, Bool.toNat_true] at hSum
    simp only [or_true, true_iff]
    omega

/-- **DAA makes a packed sum of a binary one.** -/
theorem daa_packed (hx : IsPacked x) (hy : IsPacked y)
    (hSum : al.toNat + f.carry.toNat * 0x100 = x.toNat + y.toNat + c.toNat)
    (hAdjust : f.adjust = true ↔ 16 ≤ x.toNat % 16 + y.toNat % 16 + c.toNat) :
    IsPacked (daa al f).1
      ∧ packedValue (daa al f).1 + (daa al f).2.carry.toNat * 100
        = packedValue x + packedValue y + c.toNat := by
  have hc := c.toNat_le
  have hCarry := f.carry.toNat_le
  have hLow := lowDigitOff_sum hx hy hSum hAdjust
  have hHigh := highDigitOff_sum hSum
  have hByte := toNat_daa al f
  have hFlag : (daa al f).2.carry = highDigitOff al f := rfl
  obtain ⟨hx₁, hx₂⟩ := hx
  obtain ⟨hy₁, hy₂⟩ := hy
  rw [IsPacked, packedValue, packedValue, packedValue, hFlag]
  -- which of the two digits are corrected
  cases hl : lowDigitOff al f <;> cases hh : highDigitOff al f <;>
    simp only [hl, hh, Bool.toNat_false, Bool.toNat_true, Bool.false_eq_true, true_iff,
      false_iff] at hLow hHigh hByte ⊢ <;>
    omega

/-- The low digits of a difference are out of range exactly if they borrow. -/
theorem lowDigitOff_difference (hx : IsPacked x) (hy : IsPacked y)
    (hDiff : al.toNat + y.toNat + c.toNat = x.toNat + f.carry.toNat * 0x100)
    (hAdjust : f.adjust = true ↔ x.toNat % 16 < y.toNat % 16 + c.toNat) :
    lowDigitOff al f = true ↔ x.toNat % 16 < y.toNat % 16 + c.toNat := by
  have hc := c.toNat_le
  have hCarry := f.carry.toNat_le
  obtain ⟨hx₁, -⟩ := hx
  obtain ⟨hy₁, -⟩ := hy
  rw [lowDigitOff, Bool.or_eq_true, decide_eq_true_iff, hAdjust]
  omega

/-- The digits of a difference that needs no borrow stay in range together. -/
theorem highDigitOff_difference (hx : IsPacked x)
    (hDiff : al.toNat + y.toNat + c.toNat = x.toNat + f.carry.toNat * 0x100) :
    highDigitOff al f = f.carry := by
  obtain ⟨hx₁, hx₂⟩ := hx
  rw [highDigitOff]
  cases hCarry : f.carry with
  | false =>
    rw [hCarry, Bool.toNat_false] at hDiff
    rw [Bool.or_false, decide_eq_false_iff_not]
    omega
  | true => exact Bool.or_true _

/-- A low digit that borrows leaves at least 6 behind, so its correction borrows nothing more. -/
theorem carry_das (hx : IsPacked x) (hy : IsPacked y)
    (hDiff : al.toNat + y.toNat + c.toNat = x.toNat + f.carry.toNat * 0x100)
    (hAdjust : f.adjust = true ↔ x.toNat % 16 < y.toNat % 16 + c.toNat) :
    (das al f).2.carry = f.carry := by
  have hc := c.toNat_le
  have hLow := lowDigitOff_difference hx hy hDiff hAdjust
  show (highDigitOff al f || (lowDigitOff al f && (f.carry || decide (al.toNat < 6)))) = f.carry
  rw [highDigitOff_difference hx hDiff]
  cases hCarry : f.carry with
  | true => exact Bool.true_or _
  | false =>
    rw [hCarry, Bool.toNat_false] at hDiff
    rw [Bool.false_or, Bool.false_or, Bool.and_eq_false_iff, decide_eq_false_iff_not,
      ← Bool.not_eq_true, hLow]
    obtain ⟨hy₁, -⟩ := hy
    omega

/-- **DAS makes a packed difference of a binary one.** -/
theorem das_packed (hx : IsPacked x) (hy : IsPacked y)
    (hDiff : al.toNat + y.toNat + c.toNat = x.toNat + f.carry.toNat * 0x100)
    (hAdjust : f.adjust = true ↔ x.toNat % 16 < y.toNat % 16 + c.toNat) :
    IsPacked (das al f).1
      ∧ packedValue (das al f).1 + packedValue y + c.toNat
        = packedValue x + (das al f).2.carry.toNat * 100 := by
  have hc := c.toNat_le
  have hRes := (das al f).1.toNat_lt
  have hLow := lowDigitOff_difference hx hy hDiff hAdjust
  have hHigh := highDigitOff_difference hx hDiff
  have hByte := toNat_das al f
  have hFlag := carry_das hx hy hDiff hAdjust
  rw [hHigh] at hByte
  obtain ⟨hx₁, hx₂⟩ := hx
  obtain ⟨hy₁, hy₂⟩ := hy
  rw [IsPacked, packedValue, packedValue, packedValue, hFlag]
  -- which of the two digits are corrected
  cases hl : lowDigitOff al f <;> cases hk : f.carry <;>
    simp only [hl, hk, Bool.toNat_false, Bool.toNat_true, Bool.false_eq_true, true_iff,
      false_iff] at hLow hDiff hByte ⊢ <;>
    omega

end Adjust

/-! ### One byte -/

section Byte

variable {x y : UInt8}

theorem truncate_toUInt32 (v : UInt8) : Width.byte.truncate v.toUInt32 = v.toUInt32 :=
  Width.truncate_eq_self v.toNat_lt

theorem toNat_toUInt8 {v : UInt32} (hv : v.toNat < Width.byte.values) : v.toUInt8.toNat = v.toNat :=
  Nat.mod_eq_of_lt hv

theorem addPacked_exact (hx : IsPacked x) (hy : IsPacked y) (f : Flags) :
    IsPacked (addPacked x y f).1
      ∧ packedValue (addPacked x y f).1 + (addPacked x y f).2.carry.toNat * 100
        = packedValue x + packedValue y + f.carry.toNat := by
  have hFits : (adc .byte x.toUInt32 y.toUInt32 f).1.toNat < Width.byte.values :=
    Width.toNat_truncate_lt _ _
  have hSum : (adc .byte x.toUInt32 y.toUInt32 f).1.toUInt8.toNat
      + (adc .byte x.toUInt32 y.toUInt32 f).2.carry.toNat * 0x100
      = x.toNat + y.toNat + f.carry.toNat := by
    have hExact := addWithCarry_eq_sum .byte x.toUInt32 y.toUInt32 f.carry f
    rw [truncate_toUInt32, truncate_toUInt32] at hExact
    rw [toNat_toUInt8 hFits]
    exact hExact
  have hAdjust : (adc .byte x.toUInt32 y.toUInt32 f).2.adjust = true
      ↔ 16 ≤ x.toNat % 16 + y.toNat % 16 + f.carry.toNat := by
    have hDigit := adjust_addWithCarry .byte x.toUInt32 y.toUInt32 f.carry f
    simp only [Exact.sum, OutOfDigit, truncate_toUInt32, UInt8.toNat_toUInt32] at hDigit
    exact hDigit.trans (by omega)
  exact daa_packed hx hy hSum hAdjust

theorem subPacked_exact (hx : IsPacked x) (hy : IsPacked y) (f : Flags) :
    IsPacked (subPacked x y f).1
      ∧ packedValue (subPacked x y f).1 + packedValue y + f.carry.toNat
        = packedValue x + (subPacked x y f).2.carry.toNat * 100 := by
  have hFits : (sbb .byte x.toUInt32 y.toUInt32 f).1.toNat < Width.byte.values :=
    Width.toNat_truncate_lt _ _
  have hDiff : (sbb .byte x.toUInt32 y.toUInt32 f).1.toUInt8.toNat + y.toNat + f.carry.toNat
      = x.toNat + (sbb .byte x.toUInt32 y.toUInt32 f).2.carry.toNat * 0x100 := by
    have hExact := subWithBorrow_eq_difference .byte x.toUInt32 y.toUInt32 f.carry f
    rw [truncate_toUInt32, truncate_toUInt32] at hExact
    rw [toNat_toUInt8 hFits]
    exact hExact
  have hAdjust : (sbb .byte x.toUInt32 y.toUInt32 f).2.adjust = true
      ↔ x.toNat % 16 < y.toNat % 16 + f.carry.toNat := by
    have hDigit := adjust_subWithBorrow .byte x.toUInt32 y.toUInt32 f.carry f
    simp only [Exact.difference, OutOfDigit, truncate_toUInt32, UInt8.toNat_toUInt32] at hDigit
    exact hDigit.trans (by omega)
  exact das_packed hx hy hDiff hAdjust

end Byte

/-! ### Numbers of any length -/

section Number

variable {xs ys : List UInt8}

theorem packed_sum (hLen : xs.length = ys.length) (hx : ∀ x ∈ xs, IsPacked x)
    (hy : ∀ y ∈ ys, IsPacked y) (f : Flags) :
    packedNumber (chain addPacked xs ys f).1
        + (chain addPacked xs ys f).2.carry.toNat * 100 ^ xs.length
      = packedNumber xs + packedNumber ys + f.carry.toNat := by
  have hStep (x y : UInt8) (f : Flags) (hx : IsPacked x) (hy : IsPacked y) :
      (packedValue (addPacked x y f).1 : Int) + 1 * ((addPacked x y f).2.carry.toNat * (100 : Nat))
        = packedValue x + 1 * (packedValue y + f.carry.toNat) := by
    rw [one_mul, one_mul, ← add_assoc]
    exact_mod_cast (addPacked_exact hx hy f).2
  have hChain := number_chain 1 IsPacked hStep hLen hx hy f
  rw [one_mul, one_mul, ← add_assoc] at hChain
  exact_mod_cast hChain

theorem packed_difference (hLen : xs.length = ys.length) (hx : ∀ x ∈ xs, IsPacked x)
    (hy : ∀ y ∈ ys, IsPacked y) (f : Flags) :
    (packedNumber (chain subPacked xs ys f).1 : Int)
        - (chain subPacked xs ys f).2.carry.toNat * 100 ^ xs.length
      = packedNumber xs - packedNumber ys - f.carry.toNat := by
  have hStep (x y : UInt8) (f : Flags) (hx : IsPacked x) (hy : IsPacked y) :
      (packedValue (subPacked x y f).1 : Int)
          + -1 * ((subPacked x y f).2.carry.toNat * (100 : Nat))
        = packedValue x + -1 * (packedValue y + f.carry.toNat) := by
    have hByte : (packedValue (subPacked x y f).1 : Int) + packedValue y + f.carry.toNat
        = packedValue x + (subPacked x y f).2.carry.toNat * 100 := by
      exact_mod_cast (subPacked_exact hx hy f).2
    linear_combination hByte
  have hChain := number_chain (-1) IsPacked hStep hLen hx hy f
  rw [packedNumber, packedNumber, packedNumber]
  linear_combination hChain

/-- **Packed numbers of any length add and subtract exactly**, byte by byte with the flags threaded
through: all bytes of the result are packed, and together with the last carry they spell the sum,
or the difference, of the two numbers and of the carry in. -/
theorem packed_arithmetic (hLen : xs.length = ys.length) (hx : ∀ x ∈ xs, IsPacked x)
    (hy : ∀ y ∈ ys, IsPacked y) (f : Flags) :
    ((∀ z ∈ (chain addPacked xs ys f).1, IsPacked z)
      ∧ (chain addPacked xs ys f).1.length = xs.length
      ∧ packedNumber (chain addPacked xs ys f).1
          + (chain addPacked xs ys f).2.carry.toNat * 100 ^ xs.length
        = packedNumber xs + packedNumber ys + f.carry.toNat)
    ∧ (∀ z ∈ (chain subPacked xs ys f).1, IsPacked z)
      ∧ (chain subPacked xs ys f).1.length = xs.length
      ∧ (packedNumber (chain subPacked xs ys f).1 : Int)
          - (chain subPacked xs ys f).2.carry.toNat * 100 ^ xs.length
        = packedNumber xs - packedNumber ys - f.carry.toNat := by
  refine ⟨⟨?_, length_chain hLen f, packed_sum hLen hx hy f⟩, ?_, length_chain hLen f,
    packed_difference hLen hx hy f⟩
  · exact forall_mem_chain (fun _ _ f hx hy => (addPacked_exact hx hy f).1) hx hy f
  · exact forall_mem_chain (fun _ _ f hx hy => (subPacked_exact hx hy f).1) hx hy f

end Number

/-- 1258 + 9764 + 1 is 1023 and a carry, 1258 - 9764 - 1 is 1493 and a borrow. -/
theorem packed_arithmetic_carried :
    [(0x58 : UInt8), 0x12].length = [(0x64 : UInt8), 0x97].length
      ∧ (∀ x ∈ [(0x58 : UInt8), 0x12], IsPacked x) ∧ (∀ y ∈ [(0x64 : UInt8), 0x97], IsPacked y)
      ∧ packedNumber [0x23, 0x10] + true.toNat * 100 ^ 2
        = packedNumber [0x58, 0x12] + packedNumber [0x64, 0x97] + true.toNat
      ∧ (packedNumber [0x93, 0x14] : Int) - true.toNat * 100 ^ 2
        = packedNumber [0x58, 0x12] - packedNumber [0x64, 0x97] - true.toNat := by
  have hx : ∀ x ∈ [(0x58 : UInt8), 0x12], IsPacked x :=
    List.forall_mem_cons.2 ⟨by decide, List.forall_mem_singleton.2 (by decide)⟩
  have hy : ∀ y ∈ [(0x64 : UInt8), 0x97], IsPacked y :=
    List.forall_mem_cons.2 ⟨by decide, List.forall_mem_singleton.2 (by decide)⟩
  have hSum : (chain addPacked [0x58, 0x12] [0x64, 0x97] { carry := true }).1 = [0x23, 0x10] := by
    decide
  have hCarry : (chain addPacked [0x58, 0x12] [0x64, 0x97] { carry := true }).2.carry = true := by
    decide
  have hDifference :
      (chain subPacked [0x58, 0x12] [0x64, 0x97] { carry := true }).1 = [0x93, 0x14] := by decide
  have hBorrow : (chain subPacked [0x58, 0x12] [0x64, 0x97] { carry := true }).2.carry = true := by
    decide
  have h := @packed_arithmetic [0x58, 0x12] [0x64, 0x97] rfl hx hy { carry := true }
  rw [hSum, hCarry, hDifference, hBorrow] at h
  obtain ⟨⟨-, -, hAdd⟩, -, -, hSub⟩ := h
  exact ⟨rfl, hx, hy, hAdd, hSub⟩

end Alu

end X86
