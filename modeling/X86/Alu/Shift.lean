import X86.Model
import X86.Flags

/-!
# Shifts and rotates

A count of zero changes neither the operand nor the flags. Shifts work on numbers wide enough to
hold the bits that leave the operand, so a count beyond the width needs no special care; the rotates
through carry move one bit at a time.
-/

namespace X86

/-- The shift group, in encoding order; `shl` and `sal` are two encodings of one operation. -/
inductive ShiftOp where
  | rol
  | ror
  | rcl
  | rcr
  | shl
  | shr
  | sal
  | sar
deriving DecidableEq, Repr, Inhabited

/-- The operation that the low three bits of `n` select. -/
def ShiftOp.ofCode (n : UInt8) : ShiftOp :=
  match n.toNat % 8 with
  | 0 => rol
  | 1 => ror
  | 2 => rcl
  | 3 => rcr
  | 4 => shl
  | 5 => shr
  | 6 => sal
  | _ => sar

namespace Alu

/-- The second highest bit at width `w`. -/
def belowSign (w : Width) (v : UInt32) : Bool := bitAt v (w.bits - 2)

/-- Shifts left by `n`. -/
def shl (w : Width) (a : UInt32) (n : Nat) (f : Flags) : UInt32 × Flags :=
  let a := w.truncate a
  if n = 0 then (a, f)
  else
    let wide := if n > w.bits then 0 else a.toNat <<< n
    let res := w.truncate (UInt32.ofNat wide)
    let carry := wide.testBit w.bits
    (res,
      { f.setResult w res with
        carry := carry
        overflow := w.isNegative res != carry
        adjust := false })

/-- Shifts right by `n`, filling with zeros. -/
def shr (w : Width) (a : UInt32) (n : Nat) (f : Flags) : UInt32 × Flags :=
  let a := w.truncate a
  if n = 0 then (a, f)
  else
    let last := if n > w.bits then 0 else a.toNat >>> (n - 1)
    let res := UInt32.ofNat (last >>> 1)
    (res,
      { f.setResult w res with
        carry := last.testBit 0
        overflow := w.isNegative a
        adjust := false })

/-- Shifts right by `n`, filling with the sign. -/
def sar (w : Width) (a : UInt32) (n : Nat) (f : Flags) : UInt32 × Flags :=
  let a := w.truncate a
  if n = 0 then (a, f)
  else
    let last := w.toInt a >>> (min n w.bits - 1)
    let res := w.truncate (UInt32.ofInt (last / 2))
    (res,
      { f.setResult w res with
        carry := last % 2 == 1
        overflow := false
        adjust := false })

/-- Rotates left by `n`. -/
def rol (w : Width) (a : UInt32) (n : Nat) (f : Flags) : UInt32 × Flags :=
  let a := w.truncate a
  if n = 0 then (a, f)
  else
    let c := n % w.bits
    let res :=
      if c = 0 then a
      else w.truncate (UInt32.ofNat ((a.toNat <<< c) ||| (a.toNat >>> (w.bits - c))))
    let carry := bitAt res 0
    (res, { f with carry := carry, overflow := w.isNegative res != carry })

/-- Rotates right by `n`. -/
def ror (w : Width) (a : UInt32) (n : Nat) (f : Flags) : UInt32 × Flags :=
  let a := w.truncate a
  if n = 0 then (a, f)
  else
    let c := n % w.bits
    let res :=
      if c = 0 then a
      else w.truncate (UInt32.ofNat ((a.toNat >>> c) ||| (a.toNat <<< (w.bits - c))))
    (res,
      { f with
        carry := w.isNegative res
        overflow := w.isNegative res != belowSign w res })

/-- Moves the operand and the carry flag left by `n` places, as one ring of bits. -/
def rotateCarryLeft (w : Width) : Nat → UInt32 × Bool → UInt32 × Bool
  | 0, s => s
  | n + 1, (v, carry) =>
    rotateCarryLeft w n (w.truncate ((v <<< 1) ||| carry.toUInt32), w.isNegative v)

/-- Moves the operand and the carry flag right by `n` places, as one ring of bits. -/
def rotateCarryRight (w : Width) : Nat → UInt32 × Bool → UInt32 × Bool
  | 0, s => s
  | n + 1, (v, carry) =>
    rotateCarryRight w n ((v >>> 1) ||| (if carry then w.signBit else 0), bitAt v 0)

/-- Rotates left through the carry flag by `n`. -/
def rcl (w : Width) (a : UInt32) (n : Nat) (f : Flags) : UInt32 × Flags :=
  let a := w.truncate a
  let c := n % (w.bits + 1)
  if c = 0 then (a, f)
  else
    let (res, carry) := rotateCarryLeft w c (a, f.carry)
    (res, { f with carry := carry, overflow := w.isNegative res != carry })

/-- Rotates right through the carry flag by `n`. -/
def rcr (w : Width) (a : UInt32) (n : Nat) (f : Flags) : UInt32 × Flags :=
  let a := w.truncate a
  let c := n % (w.bits + 1)
  if c = 0 then (a, f)
  else
    let (res, carry) := rotateCarryRight w c (a, f.carry)
    (res, { f with carry := carry, overflow := w.isNegative res != belowSign w res })

/-- The number of places that a count operand asks for. -/
def effectiveCount (m : Features) (count : UInt32) : Nat :=
  if m.maskShiftCount then count.toNat % 32 else count.toNat % 256

/-- A member of the shift group. -/
def shift (op : ShiftOp) (m : Features) (w : Width) (a count : UInt32) (f : Flags) :
    UInt32 × Flags :=
  let n := effectiveCount m count
  match op with
  | .rol => rol w a n f
  | .ror => ror w a n f
  | .rcl => rcl w a n f
  | .rcr => rcr w a n f
  | .shl | .sal => shl w a n f
  | .shr => shr w a n f
  | .sar => sar w a n f

/-- Shifts `a` left and fills from the top of `b`; the count is taken modulo 32. -/
def shld (w : Width) (a b count : UInt32) (f : Flags) : UInt32 × Flags :=
  let a := w.truncate a
  let b := w.truncate b
  let n := count.toNat % 32
  if n = 0 then (a, f)
  else
    let joined := (a.toNat <<< w.bits) ||| b.toNat
    let res := w.truncate (UInt32.ofNat ((joined <<< n) >>> w.bits))
    (res,
      { f.setResult w res with
        carry := decide (n ≤ w.bits) && joined.testBit (2 * w.bits - n)
        overflow := w.isNegative res != w.isNegative a })

/-- Shifts `a` right and fills from the bottom of `b`; the count is taken modulo 32. -/
def shrd (w : Width) (a b count : UInt32) (f : Flags) : UInt32 × Flags :=
  let a := w.truncate a
  let b := w.truncate b
  let n := count.toNat % 32
  if n = 0 then (a, f)
  else
    let joined := (b.toNat <<< w.bits) ||| a.toNat
    let res := w.truncate (UInt32.ofNat (joined >>> n))
    (res,
      { f.setResult w res with
        carry := joined.testBit (n - 1)
        overflow := w.isNegative res != w.isNegative a })

/-! ### Amounts

A machine word can be shifted by fewer places than it has bits. The group works on words of 64 bits,
the shifts over two operands on words of 128; these are the amounts by which they shift them, single
places aside, where `none` is a difference below zero. -/

/-- The difference of two amounts. -/
def difference (a b : Nat) : Option Nat := if b ≤ a then some (a - b) else none

/-- The amounts of a member of the shift group at the effective count `n`. -/
def shiftAmounts (op : ShiftOp) (w : Width) (n : Nat) : List (Option Nat) :=
  if n = 0 then []
  else
    match op with
    | .shl | .sal => if n > w.bits then [some w.bits] else [some n, some w.bits]
    | .shr => if n > w.bits then [] else [difference n 1]
    | .sar => [difference (min n w.bits) 1]
    | .rol | .ror =>
      let c := n % w.bits
      if c = 0 then [] else [some c, difference w.bits c]
    | .rcl | .rcr => []

/-- The amounts of a left shift over two operands. -/
def shldAmounts (w : Width) (count : UInt32) : List (Option Nat) :=
  let n := count.toNat % 32
  if n = 0 then []
  else
    [some w.bits, some n, some w.bits]
      ++ if n ≤ w.bits then [difference (2 * w.bits) n] else []

/-- The amounts of a right shift over two operands. -/
def shrdAmounts (w : Width) (count : UInt32) : List (Option Nat) :=
  let n := count.toNat % 32
  if n = 0 then [] else [some w.bits, some n, difference n 1]

/-- A word of `size` bits can be shifted by all the amounts. -/
def canShift (size : Nat) (amounts : List (Option Nat)) : Bool :=
  amounts.all (·.any fun n => decide (n < size))

end Alu

end X86
