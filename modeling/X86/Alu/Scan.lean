import X86.Width

/-!
# Bit scans

The index of the lowest or the highest set bit of an operand.
-/

namespace X86

/-- The direction of a bit scan. -/
inductive ScanOp where
  /-- From bit 0 upwards. -/
  | forward
  /-- From the highest bit downwards. -/
  | reverse
deriving DecidableEq, Repr, Inhabited

/-- The index of the first set bit that the scan meets; `none` if all bits are clear. -/
def Alu.scan (op : ScanOp) (w : Width) (v : UInt32) : Option Nat :=
  match op with
  | .forward => (List.range w.bits).find? (bitAt v)
  | .reverse => (List.range w.bits).reverse.find? (bitAt v)

end X86
