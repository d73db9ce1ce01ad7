/-!
# Little-endian words

Words of several bytes are stored with their low byte first. `joinLittle` and `byteOf` go from the
bytes to the word and back, which `joinLittle_byteOf` says.
-/

namespace X86

/-- The number whose `n` bytes are `byte 0`, `byte 1`, …, the low byte first. -/
def joinLittle (byte : Nat → UInt8) : Nat → Nat
  | 0 => 0
  | n + 1 => (byte 0).toNat + 256 * joinLittle (fun i => byte (i + 1)) n

/-- A 16-bit word from its low and its high byte. -/
def word16 (low high : UInt8) : UInt16 := (high.toUInt16 <<< 8) ||| low.toUInt16

/-- A 32-bit word from its low and its high half. -/
def word32 (low high : UInt16) : UInt32 := (high.toUInt32 <<< 16) ||| low.toUInt32

/-- Byte `i` of a 32-bit word, counted from the low end. -/
def byteOf (v : UInt32) (i : Nat) : UInt8 := (UInt32.ofNat (v.toNat >>> (8 * i))).toUInt8

theorem joinLittle_lt (byte : Nat → UInt8) (n : Nat) : joinLittle byte n < 1 <<< (8 * n) := by
  induction n generalizing byte with
  | zero => exact Nat.zero_lt_one
  | succ n ih =>
    have hb := (byte 0).toNat_lt
    have hn := ih fun i => byte (i + 1)
    rw [Nat.one_shiftLeft] at hn
    rw [joinLittle, Nat.one_shiftLeft, Nat.mul_succ, Nat.pow_add]
    omega

theorem toNat_byteOf (v : UInt32) (i : Nat) :
    (byteOf v i).toNat = v.toNat >>> (8 * i) % 256 := by
  have hv := v.toNat_lt
  have hle : v.toNat >>> (8 * i) ≤ v.toNat := Nat.shiftRight_le ..
  rw [byteOf, UInt32.toNat_toUInt8, UInt32.toNat_ofNat']
  omega

theorem joinLittle_congr {f g : Nat → UInt8} {n : Nat} (h : ∀ i < n, f i = g i) :
    joinLittle f n = joinLittle g n := by
  induction n generalizing f g with
  | zero => rfl
  | succ n ih =>
    rw [joinLittle, joinLittle, h 0 (Nat.succ_pos n), ih fun i hi => h (i + 1) (Nat.succ_lt_succ hi)]

theorem joinLittle_byteOf_add (v : UInt32) (n k : Nat) :
    joinLittle (fun i => byteOf v (i + k)) n = v.toNat >>> (8 * k) % (1 <<< (8 * n)) := by
  induction n generalizing k with
  | zero => simp [joinLittle, Nat.mod_one]
  | succ n ih =>
    have step : (fun i => byteOf v (i + 1 + k)) = fun i => byteOf v (i + (k + 1)) := by
      funext i
      rw [Nat.add_assoc, Nat.add_comm 1 k]
    rw [joinLittle, step, ih, toNat_byteOf, Nat.zero_add, Nat.mul_succ 8 k, Nat.shiftRight_add,
      Nat.mul_succ 8 n, Nat.one_shiftLeft, Nat.one_shiftLeft, Nat.add_comm (8 * n) 8, Nat.pow_add,
      Nat.mod_mul, Nat.shiftRight_eq_div_pow _ 8]

/-- The low bytes of a word give its value, cut to as many bytes. -/
theorem joinLittle_byteOf (v : UInt32) (n : Nat) :
    joinLittle (byteOf v) n = v.toNat % (1 <<< (8 * n)) :=
  joinLittle_byteOf_add v n 0

theorem toNat_word16 (low high : UInt8) :
    (word16 low high).toNat = low.toNat + 256 * high.toNat := by
  have hl := low.toNat_lt
  have hh := high.toNat_lt
  have shifted : high.toNat <<< (UInt16.toNat 8 % 16) % 2 ^ 16 = 2 ^ 8 * high.toNat := by
    rw [Nat.shiftLeft_eq]
    simp
    omega
  rw [word16, UInt16.toNat_or, UInt16.toNat_shiftLeft, UInt8.toNat_toUInt16, UInt8.toNat_toUInt16,
    shifted, ← Nat.two_pow_add_eq_or_of_lt (by omega)]
  omega

theorem toNat_word32 (low high : UInt16) :
    (word32 low high).toNat = low.toNat + 65536 * high.toNat := by
  have hl := low.toNat_lt
  have hh := high.toNat_lt
  have shifted : high.toNat <<< (UInt32.toNat 16 % 32) % 2 ^ 32 = 2 ^ 16 * high.toNat := by
    rw [Nat.shiftLeft_eq]
    simp
    omega
  rw [word32, UInt32.toNat_or, UInt32.toNat_shiftLeft, UInt16.toNat_toUInt32,
    UInt16.toNat_toUInt32, shifted, ← Nat.two_pow_add_eq_or_of_lt (by omega)]
  omega

end X86
