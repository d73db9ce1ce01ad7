import X86.Text.Hex

/-!
# Segment and offset pairs

The real mode form of an address.
-/

namespace X86

/-- A real mode segment:offset pair. -/
structure FarPointer where
  segment : UInt16
  offset : UInt16
deriving DecidableEq, Repr, Inhabited

namespace FarPointer

/-- Sixteen times the segment plus the offset. -/
def linear (p : FarPointer) : UInt32 := (p.segment.toUInt32 <<< 4) + p.offset.toUInt32

/-- Both halves in hexadecimal. -/
def text (p : FarPointer) : String :=
  Hex.upper 4 p.segment.toNat ++ ":" ++ Hex.upper 4 p.offset.toNat

end FarPointer

end X86
