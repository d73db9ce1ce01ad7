/-!
# Hexadecimal text

Listings, traces and messages write numbers in upper case hexadecimal, with a least number of
digits, and pad columns with blanks.
-/

namespace X86.Hex

/-- The digits of `n` in base 16, most significant first; `0` has one digit. -/
def digits (n : Nat) : List Char :=
  Nat.toDigits 16 n

/-- `n` in upper case, filled up with zeros to at least `width` digits. -/
def upper (width n : Nat) : String :=
  let ds := (digits n).map Char.toUpper
  String.ofList (List.replicate (width - ds.length) '0' ++ ds)

/-- `n` in lower case, filled up with zeros to at least `width` digits. -/
def lower (width n : Nat) : String :=
  let ds := digits n
  String.ofList (List.replicate (width - ds.length) '0' ++ ds)

/-- Two upper case digits for each byte, without separators. -/
def ofBytes (bytes : List UInt8) : String :=
  String.join (bytes.map fun b => upper 2 b.toNat)

end X86.Hex

namespace X86.Text

/-- Appends blanks until the text takes `width` bytes; longer text stays as it is. -/
def padRight (s : String) (width : Nat) : String :=
  s ++ String.ofList (List.replicate (width - s.utf8ByteSize) ' ')

end X86.Text
