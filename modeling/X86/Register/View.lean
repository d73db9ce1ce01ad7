import X86.Width

/-!
# Slices of a register

The low byte, the second byte and the low word of a 32-bit register can be replaced on their own.
`bitAt_replaceLow`, `bitAt_replaceHigh` and `bitAt_replaceWord` say where each bit of the result
comes from; the other lemmas read the slice back.
-/

namespace X86

/-- Replaces the low byte. -/
def replaceLow (x : UInt32) (v : UInt8) : UInt32 := (x &&& (0xFFFFFF00 : UInt32)) ||| v.toUInt32

/-- Replaces the second byte. -/
def replaceHigh (x : UInt32) (v : UInt8) : UInt32 :=
  (x &&& (0xFFFF00FF : UInt32)) ||| (v.toUInt32 <<< 8)

/-- Replaces the low word. -/
def replaceWord (x : UInt32) (v : UInt16) : UInt32 := (x &&& (0xFFFF0000 : UInt32)) ||| v.toUInt32

theorem bitAt_replaceLow (x : UInt32) (v : UInt8) {n : Nat} (hn : n < 32) :
    bitAt (replaceLow x v) n = if n < 8 then v.toNat.testBit n else bitAt x n := by
  have low : bitAt v.toUInt32 n = v.toNat.testBit n := by rw [bitAt, UInt8.toNat_toUInt32]
  have mask : ∀ n < 32, bitAt 0xFFFFFF00 n = decide (8 ≤ n) := by decide
  rw [replaceLow, bitAt_or, bitAt_and, mask n hn, low]
  split
  · simp [show ¬ 8 ≤ n by omega]
  · have hv : v.toNat.testBit n = false :=
      Nat.testBit_lt_two_pow (Nat.lt_of_lt_of_le v.toNat_lt
        (Nat.pow_le_pow_right (by decide) (by omega)))
    simp [hv, show 8 ≤ n by omega]

theorem bitAt_replaceHigh (x : UInt32) (v : UInt8) {n : Nat} (hn : n < 32) :
    bitAt (replaceHigh x v) n =
      if 8 ≤ n ∧ n < 16 then v.toNat.testBit (n - 8) else bitAt x n := by
  have high : bitAt (v.toUInt32 <<< 8) n = (decide (8 ≤ n) && v.toNat.testBit (n - 8)) := by
    rw [bitAt, UInt32.toNat_shiftLeft, UInt8.toNat_toUInt32, Nat.testBit_mod_two_pow,
      Nat.testBit_shiftLeft]
    simp [hn]
  have mask : ∀ n < 32, bitAt 0xFFFF00FF n = decide (n < 8 ∨ 16 ≤ n) := by decide
  rw [replaceHigh, bitAt_or, bitAt_and, mask n hn, high]
  split
  · simp [show ¬ (n < 8 ∨ 16 ≤ n) by omega, show 8 ≤ n by omega]
  · have hv : (decide (8 ≤ n) && v.toNat.testBit (n - 8)) = false := by
      rw [Bool.and_eq_false_imp]
      intro h8
      have h8 := of_decide_eq_true h8
      exact Nat.testBit_lt_two_pow (Nat.lt_of_lt_of_le v.toNat_lt
        (Nat.pow_le_pow_right (by decide) (by omega)))
    simp [hv, show n < 8 ∨ 16 ≤ n by omega]

theorem bitAt_replaceWord (x : UInt32) (v : UInt16) {n : Nat} (hn : n < 32) :
    bitAt (replaceWord x v) n = if n < 16 then v.toNat.testBit n else bitAt x n := by
  have low : bitAt v.toUInt32 n = v.toNat.testBit n := by rw [bitAt, UInt16.toNat_toUInt32]
  have mask : ∀ n < 32, bitAt 0xFFFF0000 n = decide (16 ≤ n) := by decide
  rw [replaceWord, bitAt_or, bitAt_and, mask n hn, low]
  split
  · simp [show ¬ 16 ≤ n by omega]
  · have hv : v.toNat.testBit n = false :=
      Nat.testBit_lt_two_pow (Nat.lt_of_lt_of_le v.toNat_lt
        (Nat.pow_le_pow_right (by decide) (by omega)))
    simp [hv, show 16 ≤ n by omega]

@[simp] theorem toUInt8_replaceLow (x : UInt32) (v : UInt8) : (replaceLow x v).toUInt8 = v := by
  rw [← UInt8.toNat_inj, UInt32.toNat_toUInt8, replaceLow, UInt32.toNat_or, UInt32.toNat_and,
    Nat.or_mod_two_pow, Nat.and_mod_two_pow, UInt8.toNat_toUInt32]
  simp [Nat.mod_eq_of_lt v.toNat_lt]

@[simp] theorem toUInt8_replaceHigh (x : UInt32) (v : UInt8) :
    (replaceHigh x v >>> 8).toUInt8 = v := by
  have hv := v.toNat_lt
  have high : (v.toUInt32 <<< 8).toNat >>> 8 = v.toNat := by
    rw [UInt32.toNat_shiftLeft, UInt8.toNat_toUInt32, Nat.shiftLeft_eq, Nat.shiftRight_eq_div_pow]
    simp
    omega
  have places : UInt32.toNat 8 % 32 = 8 := rfl
  rw [← UInt8.toNat_inj, UInt32.toNat_toUInt8, UInt32.toNat_shiftRight, replaceHigh,
    UInt32.toNat_or, UInt32.toNat_and, places, Nat.shiftRight_or_distrib,
    Nat.shiftRight_and_distrib, high, Nat.or_mod_two_pow, Nat.and_mod_two_pow]
  simp [Nat.mod_eq_of_lt hv]

@[simp] theorem toUInt16_replaceWord (x : UInt32) (v : UInt16) :
    (replaceWord x v).toUInt16 = v := by
  rw [← UInt16.toNat_inj, UInt32.toNat_toUInt16, replaceWord, UInt32.toNat_or, UInt32.toNat_and,
    Nat.or_mod_two_pow, Nat.and_mod_two_pow, UInt16.toNat_toUInt32]
  simp [Nat.mod_eq_of_lt v.toNat_lt]

end X86
