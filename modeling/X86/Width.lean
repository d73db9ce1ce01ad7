/-!
# Operand widths

An instruction works on bytes, words or double words. Values of all three widths travel in 32-bit
words; this file says which bits of such a word count and how they read as a signed number.
-/

namespace X86

/-- The size of an operand. -/
inductive Width where
  /-- 8 bits. -/
  | byte
  /-- 16 bits. -/
  | word
  /-- 32 bits. -/
  | dword
deriving DecidableEq, Repr, Inhabited

/-- Bit `n` of a 32-bit word. -/
def bitAt (v : UInt32) (n : Nat) : Bool := v.toNat.testBit n

theorem bitAt_of_le (v : UInt32) {n : Nat} (hn : 32 ≤ n) : bitAt v n = false :=
  Nat.testBit_lt_two_pow (Nat.lt_of_lt_of_le v.toNat_lt (Nat.pow_le_pow_right (by decide) hn))

/-- A word is known by its bits. -/
theorem eq_of_bitAt {v w : UInt32} (h : ∀ n < 32, bitAt v n = bitAt w n) : v = w := by
  refine UInt32.toNat_inj.1 (Nat.eq_of_testBit_eq fun n => ?_)
  rcases Nat.lt_or_ge n 32 with hn | hn
  · exact h n hn
  · exact (bitAt_of_le v hn).trans (bitAt_of_le w hn).symm

theorem bitAt_and (x y : UInt32) (n : Nat) : bitAt (x &&& y) n = (bitAt x n && bitAt y n) := by
  rw [bitAt, UInt32.toNat_and, Nat.testBit_and, bitAt, bitAt]

theorem bitAt_or (x y : UInt32) (n : Nat) : bitAt (x ||| y) n = (bitAt x n || bitAt y n) := by
  rw [bitAt, UInt32.toNat_or, Nat.testBit_or, bitAt, bitAt]

namespace Width

/-- The number of bits. -/
def bits : Width → Nat
  | byte => 8
  | word => 16
  | dword => 32

/-- The number of bytes. -/
def bytes : Width → Nat
  | byte => 1
  | word => 2
  | dword => 4

/-- The word whose low `bits` bits are set. -/
def mask : Width → UInt32
  | byte => 0xFF
  | word => 0xFFFF
  | dword => 0xFFFFFFFF

/-- The number of values. -/
def values : Width → Nat
  | byte => 0x100
  | word => 0x10000
  | dword => 0x100000000

/-- The word in which only the sign bit is set. -/
def signBit : Width → UInt32
  | byte => 0x80
  | word => 0x8000
  | dword => 0x80000000

/-- Drops the bits of `v` above the width. -/
def truncate (w : Width) (v : UInt32) : UInt32 := v &&& w.mask

/-- The sign bit of `v` at this width. -/
def isNegative (w : Width) (v : UInt32) : Bool := bitAt v (w.bits - 1)

/-- Copies the sign bit of the low part of `v` into the bits above the width. -/
def signExtend : Width → UInt32 → UInt32
  | byte, v => v.toUInt8.toInt8.toInt32.toUInt32
  | word, v => v.toUInt16.toInt16.toInt32.toUInt32
  | dword, v => v

/-- The low part of `v` as a signed number. -/
def toInt (w : Width) (v : UInt32) : Int := (w.signExtend v).toInt32.toInt

/-- The name of the width in a listing. -/
def name : Width → String
  | byte => "byte"
  | word => "word"
  | dword => "dword"

theorem bits_eq (w : Width) : w.bits = 8 * w.bytes := by cases w <;> rfl

theorem bytes_le (w : Width) : w.bytes ≤ 4 := by cases w <;> decide

theorem values_pos (w : Width) : 0 < w.values := by cases w <;> decide

theorem values_eq (w : Width) : w.values = 1 <<< w.bits := by cases w <;> decide

theorem toNat_mask (w : Width) : w.mask.toNat = w.values - 1 := by cases w <;> decide

/-- Truncation is the remainder modulo the number of values of the width. -/
theorem toNat_truncate (w : Width) (v : UInt32) :
    (w.truncate v).toNat = v.toNat % w.values := by
  rw [truncate, UInt32.toNat_and, toNat_mask, values_eq, Nat.one_shiftLeft,
    Nat.and_two_pow_sub_one_eq_mod]

theorem toNat_truncate_lt (w : Width) (v : UInt32) : (w.truncate v).toNat < w.values := by
  rw [toNat_truncate]
  exact Nat.mod_lt _ w.values_pos

@[simp] theorem truncate_truncate (w : Width) (v : UInt32) :
    w.truncate (w.truncate v) = w.truncate v := by
  rw [truncate, truncate, UInt32.and_assoc, UInt32.and_self]

theorem truncate_eq_self {w : Width} {v : UInt32} (h : v.toNat < w.values) :
    w.truncate v = v := by
  rw [← UInt32.toNat_inj, toNat_truncate, Nat.mod_eq_of_lt h]

@[simp] theorem truncate_dword (v : UInt32) : dword.truncate v = v :=
  truncate_eq_self v.toNat_lt

end Width

end X86
