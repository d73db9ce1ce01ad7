import X86.Model
import X86.Flags

/-!
# Multiplication and division

Products and quotients are computed exactly, on natural numbers or integers, and then cut to their
registers. A division that has no answer in its width returns `none`, which the processor reports as
a divide error.
-/

namespace X86.Alu

/-- The flags after a multiplication whose low half is `low`; `wide` says that the high half is
needed. -/
def productFlags (m : Features) (w : Width) (low : UInt32) (wide : Bool) (f : Flags) : Flags :=
  { f.setParity low with
    carry := wide
    overflow := wide
    sign := w.isNegative low
    zero := m.mulSetsZero && w.truncate low == 0 }

/-- The unsigned product, in twice the width. -/
def mul (m : Features) (w : Width) (a b : UInt32) (f : Flags) : UInt64 × Flags :=
  let product := (w.truncate a).toNat * (w.truncate b).toNat
  (UInt64.ofNat product,
    productFlags m w (UInt32.ofNat product) (decide (w.values ≤ product)) f)

/-- The signed product, as a 64-bit word. -/
def imul (m : Features) (w : Width) (a b : UInt32) (f : Flags) : UInt64 × Flags :=
  let product := w.toInt a * w.toInt b
  let low := w.truncate (UInt32.ofInt product)
  (UInt64.ofInt product, productFlags m w low (decide (w.toInt low ≠ product)) f)

/-- The unsigned quotient and remainder of a dividend of twice the width. -/
def div (w : Width) (dividend : UInt64) (divisor : UInt32) : Option (UInt32 × UInt32) :=
  let d := (w.truncate divisor).toNat
  let quotient := dividend.toNat / d
  if d = 0 ∨ w.values ≤ quotient then none
  else some (UInt32.ofNat quotient, UInt32.ofNat (dividend.toNat % d))

/-- The signed quotient, rounded toward zero, and the remainder, which has the sign of the
dividend. -/
def idiv (m : Features) (w : Width) (dividend : Int) (divisor : UInt32) :
    Option (UInt32 × UInt32) :=
  let d := w.toInt divisor
  let quotient := dividend.tdiv d
  let max : Int := (w.values / 2 : Nat) - 1
  let min : Int := if m.idivMinQuotient then -max - 1 else -max
  if d = 0 ∨ quotient > max ∨ quotient < min then none
  else some (w.truncate (UInt32.ofInt quotient), w.truncate (UInt32.ofInt (dividend.tmod d)))

end X86.Alu
