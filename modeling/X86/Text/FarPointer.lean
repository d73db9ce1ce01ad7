import X86.Memory.Pointer
import X86.Text.Blank
import X86.Text.Number

/-!
# Segment and offset pairs as text

Reads a pair as traces print it: two hexadecimal numbers with a colon between them.
-/

namespace X86.FarPointer

/-- Half of a pair: a 16-bit number in base 16, blanks around it allowed. -/
def parseHalf? (cs : List Char) : Option UInt16 :=
  match readNumber 16 0x10000 (trimBlanks cs) with
  | .ok v => some (UInt16.ofNat v)
  | .error _ => none

/-- Reads a pair; the first colon divides it. -/
def parse? (s : String) : Option FarPointer :=
  let cs := s.toList
  match cs.dropWhile (· ≠ ':') with
  | [] => none
  | _ :: offset => do
    let segment ← parseHalf? (cs.takeWhile (· ≠ ':'))
    let offset ← parseHalf? offset
    return { segment, offset }

end X86.FarPointer
