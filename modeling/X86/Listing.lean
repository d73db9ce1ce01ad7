import X86.Encoding.Decode
import X86.Instruction.Text

/-!
# Listings of code

A run of instructions from one offset on, each line starting where the one before it ended.
-/

namespace X86

/-- One line of a listing. -/
structure ListingLine where
  segment : UInt16
  offset : UInt32
  bytes : List UInt8
  instruction : Instruction
deriving DecidableEq, Repr

namespace ListingLine

/-- Decodes the real mode instruction at `segment:offset`; the decoder goes on to the next line. -/
def ofCode (m : Features) (b : Bus) (d : Decoder) (segment : UInt16) (offset : UInt32) :
    ListingLine × Decoder :=
  let (i, d) := d.decode m (Code.ofBus b (segment.toUInt32 <<< 4) offset false)
  ({ segment, offset, bytes := d.take i.length, instruction := i }, d)

/-- Whether the bytes of the line, at least one, end at an offset of 32 bits. -/
def endsInRange (l : ListingLine) : Bool :=
  decide (l.offset.toNat + max 1 l.instruction.length < 0x100000000)

/-- Where the next line starts; offsets wrap at 64 KiB. -/
def next (l : ListingLine) : UInt32 := (l.offset + UInt32.ofNat l.instruction.length) &&& 0xFFFF

/-- The line as text: address, bytes, instruction. -/
def text (l : ListingLine) : String :=
  "[" ++ Hex.upper 4 l.segment.toNat ++ ":" ++ Hex.upper 4 l.offset.toNat ++ "] "
    ++ Text.padRight (Hex.ofBytes l.bytes) 16 ++ " " ++ l.instruction.text

end ListingLine

/-- `n` lines of a listing, by a decoder that may have been used before. -/
def listingFrom (m : Features) (b : Bus) (segment : UInt16) :
    Decoder → UInt32 → Nat → List ListingLine
  | _, _, 0 => []
  | d, offset, n + 1 =>
    let (line, d) := ListingLine.ofCode m b d segment offset
    line :: listingFrom m b segment d line.next n

/-- `n` lines of a listing. -/
def listing (m : Features) (b : Bus) (segment : UInt16) (offset : UInt32) (n : Nat) :
    List ListingLine :=
  listingFrom m b segment {} offset n

/-- `n` lines of a listing, unless a line runs past the last offset of 32 bits. Only the first line
can, since every other one starts below 64 KiB. -/
def listing? (m : Features) (b : Bus) (segment : UInt16) (offset : UInt32) (n : Nat) :
    Option (List ListingLine) :=
  let lines := listing m b segment offset n
  if lines.all ListingLine.endsInRange then some lines else none

/-- A listing as text, one instruction a line. -/
def listingText (lines : List ListingLine) : String :=
  "\n".intercalate (lines.map ListingLine.text)

end X86
