import X86.Flags

/-!
# Addition, subtraction and bitwise logic

Every operation takes its operands as 32-bit words of which only the bits of the width count, and
returns the truncated result together with the new flags. Addition and subtraction are computed on
numbers, without wrapping; carry and borrow are read off the exact result.
-/

namespace X86

/-- The two-operand operations that share one encoding scheme, in encoding order. -/
inductive BinaryOp where
  | add
  | or
  | adc
  | sbb
  | and
  | sub
  | xor
  | cmp
deriving DecidableEq, Repr, Inhabited

/-- The operation that the low three bits of `n` select. -/
def BinaryOp.ofCode (n : UInt8) : BinaryOp :=
  match n.toNat % 8 with
  | 0 => add
  | 1 => or
  | 2 => adc
  | 3 => sbb
  | 4 => and
  | 5 => sub
  | 6 => xor
  | _ => cmp

/-- The one-operand operations. -/
inductive UnaryOp where
  | inc
  | dec
  | neg
  | not
deriving DecidableEq, Repr, Inhabited

namespace Alu

/-- `a + b + carry`. -/
def addWithCarry (w : Width) (a b : UInt32) (carry : Bool) (f : Flags) : UInt32 × Flags :=
  let a := w.truncate a
  let b := w.truncate b
  let sum := a.toNat + b.toNat + carry.toNat
  let res := w.truncate (UInt32.ofNat sum)
  (res,
    { f.setResult w res with
      carry := sum.testBit w.bits
      overflow := w.isNegative ((res ^^^ a) &&& (res ^^^ b))
      adjust := bitAt (res ^^^ b ^^^ a) 4 })

/-- `a - b - borrow`. -/
def subWithBorrow (w : Width) (a b : UInt32) (borrow : Bool) (f : Flags) : UInt32 × Flags :=
  let a := w.truncate a
  let b := w.truncate b
  let res := w.truncate (a - b - borrow.toUInt32)
  (res,
    { f.setResult w res with
      carry := decide (a.toNat < b.toNat + borrow.toNat)
      overflow := w.isNegative ((a ^^^ b) &&& (a ^^^ res))
      adjust := bitAt (res ^^^ b ^^^ a) 4 })

/-- Addition. -/
def add (w : Width) (a b : UInt32) (f : Flags) : UInt32 × Flags :=
  addWithCarry w a b false f

/-- Addition that takes the carry flag in. -/
def adc (w : Width) (a b : UInt32) (f : Flags) : UInt32 × Flags :=
  addWithCarry w a b f.carry f

/-- Subtraction. -/
def sub (w : Width) (a b : UInt32) (f : Flags) : UInt32 × Flags :=
  subWithBorrow w a b false f

/-- Subtraction that takes the carry flag in as a borrow. -/
def sbb (w : Width) (a b : UInt32) (f : Flags) : UInt32 × Flags :=
  subWithBorrow w a b f.carry f

/-- A bitwise result: it describes itself and clears carry, overflow and adjust. -/
def logic (w : Width) (v : UInt32) (f : Flags) : UInt32 × Flags :=
  let res := w.truncate v
  (res, { f.setResult w res with carry := false, overflow := false, adjust := false })

/-- Adds one and leaves the carry flag as it is. -/
def inc (w : Width) (a : UInt32) (f : Flags) : UInt32 × Flags :=
  let (res, g) := add w a 1 f
  (res, { g with carry := f.carry })

/-- Subtracts one and leaves the carry flag as it is. -/
def dec (w : Width) (a : UInt32) (f : Flags) : UInt32 × Flags :=
  let (res, g) := sub w a 1 f
  (res, { g with carry := f.carry })

/-- Subtracts from zero. -/
def neg (w : Width) (a : UInt32) (f : Flags) : UInt32 × Flags :=
  sub w 0 a f

/-- A two-operand operation. A comparison is a subtraction whose result nobody stores. -/
def binary (op : BinaryOp) (w : Width) (a b : UInt32) (f : Flags) : UInt32 × Flags :=
  match op with
  | .add => add w a b f
  | .or => logic w (a ||| b) f
  | .adc => adc w a b f
  | .sbb => sbb w a b f
  | .and => logic w (a &&& b) f
  | .sub | .cmp => sub w a b f
  | .xor => logic w (a ^^^ b) f

/-- A one-operand operation. The complement touches no flag. -/
def unary (op : UnaryOp) (w : Width) (a : UInt32) (f : Flags) : UInt32 × Flags :=
  match op with
  | .inc => inc w a f
  | .dec => dec w a f
  | .neg => neg w a f
  | .not => (w.truncate (~~~a), f)

end Alu

end X86
