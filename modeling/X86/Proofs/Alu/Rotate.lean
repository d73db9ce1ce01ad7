import Mathlib.Logic.Function.Iterate
import X86.Alu.Shift
import X86.Proofs.Alu.Arithmetic

/-!
# Rotations place by place

The bits of an operand form a ring, and through the carry flag a ring with one bit more. A rotation
by `n` moves each bit `n` places along its ring. The closed forms reduce the count modulo the length
of the ring; bit by bit they are compared with rotations by one place, and left rotations with right
ones.

* `bitAt_turnedLeft`, `bitAt_turnedRight`: where each bit of a rotated operand comes from.
* `ringBit`, `ringBit_iterate_carryLeft`, `ringBit_iterate_carryRight`: the same through the carry
  flag.
* `rol_succ`, `ror_succ`, `rcl_succ`, `rcr_succ`: one more place is one more rotation by one.
* `ror_rol`, `rcr_rcl`: the rotation back restores the operand, and the carry flag where it is part
  of the ring.
-/

namespace X86

/-! ### Bits of words of a width -/

namespace Width

variable (w : Width)

theorem bitAt_of_fits {v : UInt32} (hv : v.toNat < w.values) {n : Nat} (hn : w.bits ≤ n) :
    bitAt v n = false := by
  rw [values_eq, Nat.one_shiftLeft] at hv
  exact Nat.testBit_lt_two_pow (Nat.lt_of_lt_of_le hv (Nat.pow_le_pow_right (by decide) hn))

theorem bitAt_truncate_of_lt (v : UInt32) {n : Nat} (hn : n < w.bits) :
    bitAt (w.truncate v) n = bitAt v n := by
  rw [bitAt, toNat_truncate, values_eq, Nat.one_shiftLeft, Nat.testBit_mod_two_pow,
    decide_eq_true hn, Bool.true_and, bitAt]

theorem bitAt_truncate_ofNat (v : Nat) {n : Nat} (hn : n < w.bits) :
    bitAt (w.truncate (UInt32.ofNat v)) n = v.testBit n := by
  have hBits := w.bits_le
  rw [w.bitAt_truncate_of_lt _ hn, bitAt, UInt32.toNat_ofNat', Nat.testBit_mod_two_pow,
    decide_eq_true (Nat.lt_of_lt_of_le hn hBits), Bool.true_and]

/-- A word of the width is known by the bits of the width. -/
theorem eq_of_bitAt_lt {x y : UInt32} (hx : x.toNat < w.values) (hy : y.toNat < w.values)
    (h : ∀ n < w.bits, bitAt x n = bitAt y n) : x = y := by
  refine eq_of_bitAt fun n _ => ?_
  rcases Nat.lt_or_ge n w.bits with hn | hn
  · exact h n hn
  · rw [w.bitAt_of_fits hx hn, w.bitAt_of_fits hy hn]

end Width

namespace Alu

variable (w : Width)

/-! ### Rotations of the operand -/

/-- The operand of `rol` after `n` places. -/
def turnedLeft (a : UInt32) (n : Nat) : UInt32 :=
  let c := n % w.bits
  if c = 0 then a else w.truncate (UInt32.ofNat ((a.toNat <<< c) ||| (a.toNat >>> (w.bits - c))))

/-- The operand of `ror` after `n` places. -/
def turnedRight (a : UInt32) (n : Nat) : UInt32 :=
  let c := n % w.bits
  if c = 0 then a else w.truncate (UInt32.ofNat ((a.toNat >>> c) ||| (a.toNat <<< (w.bits - c))))

section Turned

variable {a : UInt32} (ha : a.toNat < w.values) (n : Nat)

include ha

theorem fits_turnedLeft : (turnedLeft w a n).toNat < w.values := by
  rw [turnedLeft]
  split
  · exact ha
  · exact w.toNat_truncate_lt _

theorem fits_turnedRight : (turnedRight w a n).toNat < w.values := by
  rw [turnedRight]
  split
  · exact ha
  · exact w.toNat_truncate_lt _

theorem bitAt_turnedLeft {i : Nat} (hi : i < w.bits) :
    bitAt (turnedLeft w a n) i = bitAt a ((i + (w.bits - n % w.bits)) % w.bits) := by
  have hc : n % w.bits < w.bits := Nat.mod_lt _ (Nat.zero_lt_of_lt hi)
  rw [turnedLeft]
  generalize n % w.bits = c at hc
  split
  · next h =>
    rw [h, Nat.sub_zero, Nat.add_mod_right, Nat.mod_eq_of_lt hi]
  · next h =>
    rw [w.bitAt_truncate_ofNat _ hi, Nat.testBit_or, Nat.testBit_shiftLeft, Nat.testBit_shiftRight]
    by_cases hci : c ≤ i
    · -- the bit comes from below; nothing has come round to its place
      have hPlace : (i + (w.bits - c)) % w.bits = i - c := by
        rw [show i + (w.bits - c) = i - c + w.bits by omega, Nat.add_mod_right,
          Nat.mod_eq_of_lt (by omega)]
      have hTop : a.toNat.testBit (w.bits - c + i) = false := w.bitAt_of_fits ha (by omega)
      rw [hPlace, hTop, decide_eq_true hci, Bool.true_and, Bool.or_false]
      rfl
    · have hPlace : (i + (w.bits - c)) % w.bits = w.bits - c + i := by
        rw [Nat.add_comm, Nat.mod_eq_of_lt (by omega)]
      rw [hPlace, decide_eq_false hci, Bool.false_and, Bool.false_or]
      rfl

theorem bitAt_turnedRight {i : Nat} (hi : i < w.bits) :
    bitAt (turnedRight w a n) i = bitAt a ((i + n % w.bits) % w.bits) := by
  have hc : n % w.bits < w.bits := Nat.mod_lt _ (Nat.zero_lt_of_lt hi)
  rw [turnedRight]
  generalize n % w.bits = c at hc
  split
  · next h => rw [h, Nat.add_zero, Nat.mod_eq_of_lt hi]
  · next h =>
    rw [w.bitAt_truncate_ofNat _ hi, Nat.testBit_or, Nat.testBit_shiftLeft, Nat.testBit_shiftRight]
    by_cases hci : w.bits - c ≤ i
    · have hPlace : (i + c) % w.bits = i - (w.bits - c) := by
        rw [show i + c = i - (w.bits - c) + w.bits by omega, Nat.add_mod_right,
          Nat.mod_eq_of_lt (by omega)]
      have hTop : a.toNat.testBit (c + i) = false := w.bitAt_of_fits ha (by omega)
      rw [hPlace, hTop, decide_eq_true hci, Bool.true_and, Bool.false_or]
      rfl
    · have hPlace : (i + c) % w.bits = c + i := by
        rw [Nat.add_comm, Nat.mod_eq_of_lt (by omega)]
      rw [hPlace, decide_eq_false hci, Bool.false_and, Bool.or_false]
      rfl

theorem turnedLeft_succ : turnedLeft w a (n + 1) = turnedLeft w (turnedLeft w a n) 1 := by
  have hn := fits_turnedLeft w ha n
  refine w.eq_of_bitAt_lt (fits_turnedLeft w ha _) (fits_turnedLeft w hn 1) fun i hi => ?_
  have hPos : 0 < w.bits := Nat.zero_lt_of_lt hi
  rw [bitAt_turnedLeft w ha _ hi, bitAt_turnedLeft w hn 1 hi,
    bitAt_turnedLeft w ha n (Nat.mod_lt _ hPos)]
  congr 1
  cases w <;> simp only [Width.bits] at hi ⊢ <;> omega

theorem turnedRight_succ : turnedRight w a (n + 1) = turnedRight w (turnedRight w a n) 1 := by
  have hn := fits_turnedRight w ha n
  refine w.eq_of_bitAt_lt (fits_turnedRight w ha _) (fits_turnedRight w hn 1) fun i hi => ?_
  have hPos : 0 < w.bits := Nat.zero_lt_of_lt hi
  rw [bitAt_turnedRight w ha _ hi, bitAt_turnedRight w hn 1 hi,
    bitAt_turnedRight w ha n (Nat.mod_lt _ hPos)]
  congr 1
  cases w <;> simp only [Width.bits] at hi ⊢ <;> omega

/-- Each bit goes back to the place that it came from. -/
theorem turnedRight_turnedLeft : turnedRight w (turnedLeft w a n) n = a := by
  have hn := fits_turnedLeft w ha n
  refine w.eq_of_bitAt_lt (fits_turnedRight w hn n) ha fun i hi => ?_
  have hPos : 0 < w.bits := Nat.zero_lt_of_lt hi
  rw [bitAt_turnedRight w hn n hi, bitAt_turnedLeft w ha n (Nat.mod_lt _ hPos)]
  congr 1
  cases w <;> simp only [Width.bits] at hi ⊢ <;> omega

end Turned

section Plain

variable (a : UInt32) (n : Nat) (f : Flags)

theorem rol_of_ne_zero (hn : n ≠ 0) :
    rol w a n f
      = (turnedLeft w (w.truncate a) n,
        { f with
          carry := bitAt (turnedLeft w (w.truncate a) n) 0
          overflow := w.isNegative (turnedLeft w (w.truncate a) n)
            != bitAt (turnedLeft w (w.truncate a) n) 0 }) := by
  rw [rol, if_neg hn]
  rfl

theorem ror_of_ne_zero (hn : n ≠ 0) :
    ror w a n f
      = (turnedRight w (w.truncate a) n,
        { f with
          carry := w.isNegative (turnedRight w (w.truncate a) n)
          overflow := w.isNegative (turnedRight w (w.truncate a) n)
            != belowSign w (turnedRight w (w.truncate a) n) }) := by
  rw [ror, if_neg hn]
  rfl

/-- One more place is one more rotation by one. -/
theorem rol_succ (hn : n ≠ 0) :
    rol w a (n + 1) f = rol w (rol w a n f).1 1 (rol w a n f).2 := by
  have ha := w.toNat_truncate_lt a
  rw [rol_of_ne_zero w a n f hn, rol_of_ne_zero w _ _ _ n.succ_ne_zero,
    rol_of_ne_zero w _ _ _ Nat.one_ne_zero, Width.truncate_eq_self (fits_turnedLeft w ha n),
    turnedLeft_succ w ha n]

theorem ror_succ (hn : n ≠ 0) :
    ror w a (n + 1) f = ror w (ror w a n f).1 1 (ror w a n f).2 := by
  have ha := w.toNat_truncate_lt a
  rw [ror_of_ne_zero w a n f hn, ror_of_ne_zero w _ _ _ n.succ_ne_zero,
    ror_of_ne_zero w _ _ _ Nat.one_ne_zero, Width.truncate_eq_self (fits_turnedRight w ha n),
    turnedRight_succ w ha n]

/-- The rotation back restores the operand, whatever the flags are. -/
theorem ror_rol (g : Flags) : (ror w (rol w a n f).1 n g).1 = w.truncate a := by
  have ha := w.toNat_truncate_lt a
  by_cases hn : n = 0
  · subst hn
    exact w.truncate_truncate a
  · rw [rol_of_ne_zero w a n f hn, ror_of_ne_zero w _ n g hn,
      Width.truncate_eq_self (fits_turnedLeft w ha n)]
    exact turnedRight_turnedLeft w ha n

end Plain

/-! ### Rotations through the carry flag -/

/-- Bit `i` of the ring that the operand and the carry flag form; the carry flag comes last. -/
def ringBit (s : UInt32 × Bool) (i : Nat) : Bool := if i < w.bits then bitAt s.1 i else s.2

theorem eq_of_ringBit {s t : UInt32 × Bool} (hs : s.1.toNat < w.values) (ht : t.1.toNat < w.values)
    (h : ∀ i ≤ w.bits, ringBit w s i = ringBit w t i) : s = t := by
  refine Prod.ext ?_ ?_
  · refine w.eq_of_bitAt_lt hs ht fun i hi => ?_
    have hBit := h i (Nat.le_of_lt hi)
    rw [ringBit, ringBit, if_pos hi, if_pos hi] at hBit
    exact hBit
  · have hBit := h w.bits (Nat.le_refl _)
    rw [ringBit, ringBit, if_neg (Nat.lt_irrefl _), if_neg (Nat.lt_irrefl _)] at hBit
    exact hBit

/-- One place to the left. -/
def carryLeft (s : UInt32 × Bool) : UInt32 × Bool :=
  (w.truncate ((s.1 <<< 1) ||| s.2.toUInt32), w.isNegative s.1)

/-- One place to the right. -/
def carryRight (s : UInt32 × Bool) : UInt32 × Bool :=
  ((s.1 >>> 1) ||| (if s.2 then w.signBit else 0), bitAt s.1 0)

theorem rotateCarryLeft_eq (n : Nat) (s : UInt32 × Bool) :
    rotateCarryLeft w n s = (carryLeft w)^[n] s := by
  induction n generalizing s with
  | zero => rfl
  | succ n ih =>
    rw [Function.iterate_succ_apply, ← ih]
    rfl

theorem rotateCarryRight_eq (n : Nat) (s : UInt32 × Bool) :
    rotateCarryRight w n s = (carryRight w)^[n] s := by
  induction n generalizing s with
  | zero => rfl
  | succ n ih =>
    rw [Function.iterate_succ_apply, ← ih]
    rfl

theorem bitAt_shiftLeft_one (v : UInt32) {i : Nat} (hi : i < 32) :
    bitAt (v <<< 1) i = (decide (1 ≤ i) && bitAt v (i - 1)) := by
  rw [bitAt, bitAt, UInt32.toNat_shiftLeft, Nat.testBit_mod_two_pow, decide_eq_true hi,
    Bool.true_and]
  exact Nat.testBit_shiftLeft _

theorem bitAt_shiftRight_one (v : UInt32) (i : Nat) : bitAt (v >>> 1) i = bitAt v (i + 1) := by
  rw [bitAt, bitAt, UInt32.toNat_shiftRight, Nat.add_comm]
  exact Nat.testBit_shiftRight _

theorem bitAt_toUInt32 (c : Bool) (i : Nat) : bitAt c.toUInt32 i = (decide (0 = i) && c) := by
  cases c with
  | false =>
    rw [Bool.and_false]
    exact Nat.zero_testBit i
  | true =>
    rw [Bool.and_true]
    exact @Nat.testBit_two_pow 0 i

theorem bitAt_signBit (i : Nat) : bitAt w.signBit i = decide (w.bits - 1 = i) := by
  cases w with
  | byte => exact @Nat.testBit_two_pow 7 i
  | word => exact @Nat.testBit_two_pow 15 i
  | dword => exact @Nat.testBit_two_pow 31 i

theorem ringBit_of_lt (s : UInt32 × Bool) {i : Nat} (hi : i < w.bits) :
    ringBit w s i = bitAt s.1 i := if_pos hi

theorem ringBit_bits (s : UInt32 × Bool) : ringBit w s w.bits = s.2 := if_neg (Nat.lt_irrefl _)

theorem ringBit_carryLeft (s : UInt32 × Bool) {i : Nat} (hi : i ≤ w.bits) :
    ringBit w (carryLeft w s) i = ringBit w s ((i + w.bits) % (w.bits + 1)) := by
  have hBits := w.bits_le
  have hPos := w.bits_pos
  by_cases hZero : i = 0
  · -- the carry flag comes in at the bottom
    subst hZero
    rw [Nat.zero_add, Nat.mod_eq_of_lt (Nat.lt_succ_self _), ringBit_bits, ringBit_of_lt w _ hPos,
      carryLeft, w.bitAt_truncate_of_lt _ hPos, bitAt_or, bitAt_shiftLeft_one _ (by decide),
      bitAt_toUInt32]
    rfl
  · have hPlace : (i + w.bits) % (w.bits + 1) = i - 1 := by
      rw [show i + w.bits = i - 1 + (w.bits + 1) by omega, Nat.add_mod_right,
        Nat.mod_eq_of_lt (by omega)]
    rw [hPlace, ringBit_of_lt w s (by omega)]
    rcases Nat.lt_or_eq_of_le hi with hLt | rfl
    · rw [ringBit_of_lt w _ hLt, carryLeft, w.bitAt_truncate_of_lt _ hLt, bitAt_or,
        bitAt_shiftLeft_one _ (by omega), bitAt_toUInt32, decide_eq_true (by omega : 1 ≤ i),
        decide_eq_false (by omega : ¬ 0 = i), Bool.true_and, Bool.false_and, Bool.or_false]
    · rw [ringBit_bits]
      rfl

theorem ringBit_carryRight {s : UInt32 × Bool} (hs : s.1.toNat < w.values) {i : Nat}
    (hi : i ≤ w.bits) :
    ringBit w (carryRight w s) i = ringBit w s ((i + 1) % (w.bits + 1)) := by
  have hPos := w.bits_pos
  rcases Nat.lt_or_eq_of_le hi with hLt | rfl
  · rw [Nat.mod_eq_of_lt (by omega), ringBit_of_lt w _ hLt, carryRight, bitAt_or,
      bitAt_shiftRight_one]
    have hTop : bitAt (if s.2 then w.signBit else 0) i = (decide (w.bits - 1 = i) && s.2) := by
      cases s.2 with
      | false =>
        rw [Bool.and_false]
        exact Nat.zero_testBit i
      | true =>
        rw [Bool.and_true]
        exact bitAt_signBit w i
    rw [hTop]
    by_cases hLast : i + 1 = w.bits
    · -- the carry flag comes in at the top
      rw [hLast, ringBit_bits, w.bitAt_of_fits hs (Nat.le_refl _), Bool.false_or,
        decide_eq_true (by omega : w.bits - 1 = i), Bool.true_and]
    · rw [ringBit_of_lt w s (by omega), decide_eq_false (by omega : ¬ w.bits - 1 = i),
        Bool.false_and, Bool.or_false]
  · rw [Nat.mod_self, ringBit_bits, ringBit_of_lt w s hPos]
    rfl

theorem fits_carryLeft (s : UInt32 × Bool) : (carryLeft w s).1.toNat < w.values :=
  w.toNat_truncate_lt _

theorem fits_carryRight {s : UInt32 × Bool} (hs : s.1.toNat < w.values) :
    (carryRight w s).1.toNat < w.values := by
  have hSign : (if s.2 then w.signBit else 0).toNat < w.values := by
    cases s.2 <;> cases w <;> decide
  have hHalf : (s.1 >>> 1).toNat < w.values := by
    have hDiv : (s.1 >>> 1).toNat = s.1.toNat / 2 := by
      rw [UInt32.toNat_shiftRight]
      exact Nat.shiftRight_eq_div_pow _ 1
    omega
  rw [w.values_eq, Nat.one_shiftLeft] at hSign hHalf ⊢
  rw [carryRight, UInt32.toNat_or]
  exact Nat.or_lt_two_pow hHalf hSign

section Ring

variable {w} {s : UInt32 × Bool} (hs : s.1.toNat < w.values) (n : Nat)

include hs

theorem fits_iterate {step : UInt32 × Bool → UInt32 × Bool}
    (hStep : ∀ t, t.1.toNat < w.values → (step t).1.toNat < w.values) :
    (step^[n] s).1.toNat < w.values :=
  Function.Iterate.rec (fun t : UInt32 × Bool => t.1.toNat < w.values) hs hStep n

theorem fits_iterate_carryLeft : ((carryLeft w)^[n] s).1.toNat < w.values :=
  fits_iterate hs n fun t _ => fits_carryLeft w t

theorem fits_iterate_carryRight : ((carryRight w)^[n] s).1.toNat < w.values :=
  fits_iterate hs n fun _ ht => fits_carryRight w ht

omit hs in
/-- `n` places to the left: bit `i` comes from `n` places below, which is `bits` times as many places
above. -/
theorem ringBit_iterate_carryLeft {i : Nat} (hi : i ≤ w.bits) :
    ringBit w ((carryLeft w)^[n] s) i = ringBit w s ((i + n * w.bits) % (w.bits + 1)) := by
  induction n generalizing i with
  | zero => rw [Nat.zero_mul, Nat.add_zero, Nat.mod_eq_of_lt (Nat.lt_succ_of_le hi)]; rfl
  | succ n ih =>
    rw [Function.iterate_succ_apply', ringBit_carryLeft w _ hi,
      ih (Nat.le_of_lt_succ (Nat.mod_lt _ w.bits.succ_pos)), Nat.mod_add_mod, Nat.succ_mul,
      Nat.add_assoc, Nat.add_comm w.bits]

theorem ringBit_iterate_carryRight {i : Nat} (hi : i ≤ w.bits) :
    ringBit w ((carryRight w)^[n] s) i = ringBit w s ((i + n) % (w.bits + 1)) := by
  induction n generalizing i with
  | zero => rw [Nat.add_zero, Nat.mod_eq_of_lt (Nat.lt_succ_of_le hi)]; rfl
  | succ n ih =>
    rw [Function.iterate_succ_apply', ringBit_carryRight w (fits_iterate_carryRight hs n) hi,
      ih (Nat.le_of_lt_succ (Nat.mod_lt _ w.bits.succ_pos)), Nat.mod_add_mod, Nat.add_assoc,
      Nat.add_comm 1]

/-- A whole turn of the ring changes nothing. -/
theorem iterate_carryLeft_mod : (carryLeft w)^[n % (w.bits + 1)] s = (carryLeft w)^[n] s := by
  refine eq_of_ringBit w (fits_iterate_carryLeft hs _) (fits_iterate_carryLeft hs _)
    fun i hi => ?_
  rw [ringBit_iterate_carryLeft _ hi, ringBit_iterate_carryLeft _ hi]
  congr 1
  cases w <;> simp only [Width.bits] at hi ⊢ <;> omega

theorem iterate_carryRight_mod : (carryRight w)^[n % (w.bits + 1)] s = (carryRight w)^[n] s := by
  refine eq_of_ringBit w (fits_iterate_carryRight hs _) (fits_iterate_carryRight hs _)
    fun i hi => ?_
  rw [ringBit_iterate_carryRight hs _ hi, ringBit_iterate_carryRight hs _ hi, Nat.add_mod_mod]

theorem iterate_carryRight_carryLeft : (carryRight w)^[n] ((carryLeft w)^[n] s) = s := by
  have hLeft := fits_iterate_carryLeft hs n
  refine eq_of_ringBit w (fits_iterate_carryRight hLeft n) hs fun i hi => ?_
  rw [ringBit_iterate_carryRight hLeft n hi,
    ringBit_iterate_carryLeft n (Nat.le_of_lt_succ (Nat.mod_lt _ w.bits.succ_pos))]
  congr 1
  cases w <;> simp only [Width.bits, Nat.succ_eq_add_one] at hi ⊢ <;> omega

end Ring

/-! ### The instructions

A rotation through the carry flag by a whole turn leaves the overflow flag alone, while single
rotations set it each time; the overflow flag is therefore left aside. -/

/-- An operand and its flags, the overflow flag cleared. -/
def withoutOverflow (r : UInt32 × Flags) : UInt32 × Flags := (r.1, { r.2 with overflow := false })

/-- The operand and the carry flag `t` among the other flags of `f`. -/
def withRing (f : Flags) (t : UInt32 × Bool) : UInt32 × Flags :=
  (t.1, { f with carry := t.2, overflow := false })

section Carried

variable (a : UInt32) (n : Nat) (f : Flags)

theorem rcl_eq :
    withoutOverflow (rcl w a n f)
      = withRing f ((carryLeft w)^[n] (w.truncate a, f.carry)) := by
  have ha : (w.truncate a, f.carry).1.toNat < w.values := w.toNat_truncate_lt a
  rw [← iterate_carryLeft_mod ha n, rcl, rotateCarryLeft_eq]
  split
  · next h =>
    rw [h]
    rfl
  · rfl

theorem rcr_eq :
    withoutOverflow (rcr w a n f)
      = withRing f ((carryRight w)^[n] (w.truncate a, f.carry)) := by
  have ha : (w.truncate a, f.carry).1.toNat < w.values := w.toNat_truncate_lt a
  rw [← iterate_carryRight_mod ha n, rcr, rotateCarryRight_eq]
  split
  · next h =>
    rw [h]
    rfl
  · rfl

end Carried

section State

variable {w} {r : UInt32 × Flags} {f : Flags} {t : UInt32 × Bool}

theorem ring_of_eq (h : withoutOverflow r = withRing f t) (ht : t.1.toNat < w.values) :
    (w.truncate r.1, r.2.carry) = t := by
  have hWord : r.1 = t.1 := congrArg Prod.fst h
  have hCarry : r.2.carry = t.2 := congrArg (fun r => r.2.carry) h
  rw [hWord, hCarry, Width.truncate_eq_self ht]

/-- The flags outside the ring are those before, overflow aside. -/
theorem withRing_of_eq (h : withoutOverflow r = withRing f t) (u : UInt32 × Bool) :
    withRing r.2 u = withRing f u := by
  have hFlags : { r.2 with overflow := false } = { f with carry := t.2, overflow := false } :=
    congrArg Prod.snd h
  exact congrArg (fun g : Flags => (u.1, { g with carry := u.2 })) hFlags

end State

/-- An operation that moves the ring by steps does one more step with one more place. -/
theorem withoutOverflow_succ {step : UInt32 × Bool → UInt32 × Bool}
    {op : UInt32 → Nat → Flags → UInt32 × Flags}
    (hStep : ∀ s, s.1.toNat < w.values → (step s).1.toNat < w.values)
    (hOp : ∀ a n f, withoutOverflow (op a n f) = withRing f (step^[n] (w.truncate a, f.carry)))
    (a : UInt32) (n : Nat) (f : Flags) :
    withoutOverflow (op a (n + 1) f) = withoutOverflow (op (op a n f).1 1 (op a n f).2) := by
  have ha : (w.truncate a, f.carry).1.toNat < w.values := w.toNat_truncate_lt a
  have hFits := fits_iterate ha n hStep
  rw [hOp a (n + 1) f, hOp, ring_of_eq (hOp a n f) hFits, withRing_of_eq (hOp a n f),
    Function.iterate_succ_apply', Function.iterate_one]

theorem rcl_succ (a : UInt32) (n : Nat) (f : Flags) :
    withoutOverflow (rcl w a (n + 1) f)
      = withoutOverflow (rcl w (rcl w a n f).1 1 (rcl w a n f).2) :=
  withoutOverflow_succ w (fun s _ => fits_carryLeft w s) (rcl_eq w) a n f

theorem rcr_succ (a : UInt32) (n : Nat) (f : Flags) :
    withoutOverflow (rcr w a (n + 1) f)
      = withoutOverflow (rcr w (rcr w a n f).1 1 (rcr w a n f).2) :=
  withoutOverflow_succ w (fun _ hs => fits_carryRight w hs) (rcr_eq w) a n f

/-- The rotation back restores the operand and the carry flag. -/
theorem rcr_rcl (a : UInt32) (n : Nat) (f : Flags) :
    (rcr w (rcl w a n f).1 n (rcl w a n f).2).1 = w.truncate a
      ∧ (rcr w (rcl w a n f).1 n (rcl w a n f).2).2.carry = f.carry := by
  have ha : (w.truncate a, f.carry).1.toNat < w.values := w.toNat_truncate_lt a
  have hRight := rcr_eq w (rcl w a n f).1 n (rcl w a n f).2
  rw [ring_of_eq (rcl_eq w a n f) (fits_iterate_carryLeft ha n),
    iterate_carryRight_carryLeft ha] at hRight
  exact ⟨congrArg Prod.fst hRight, congrArg (fun r => r.2.carry) hRight⟩

end Alu

end X86
