/-!
# Numbers as text

Numbers that users type. A sign may stand before the digits but only a plus; underscores may stand
anywhere; `0x` marks base 16.
-/

namespace X86

/-- Why text is no number. -/
inductive NumberFault where
  /-- No digits. -/
  | empty
  /-- A character that is no digit. -/
  | invalidDigit
  /-- The number does not fit. -/
  | overflow
deriving DecidableEq, Repr

/-- The wording of a refusal. -/
def NumberFault.text : NumberFault → String
  | empty => "cannot parse integer from empty string"
  | invalidDigit => "invalid digit found in string"
  | overflow => "number too large to fit in target type"

/-- The value of a digit in base `base`, letters of both cases included. -/
def digitValue? (base : Nat) (c : Char) : Option Nat :=
  let v :=
    if '0' ≤ c ∧ c ≤ '9' then c.toNat - '0'.toNat
    else if 'a' ≤ c ∧ c ≤ 'z' then c.toNat - 'a'.toNat + 10
    else if 'A' ≤ c ∧ c ≤ 'Z' then c.toNat - 'A'.toNat + 10
    else base
  if v < base then some v else none

/-- Reads digits from the left. The first digit that is none, or that makes the number too large,
decides the refusal. -/
def readDigits (base limit : Nat) : Nat → List Char → Except NumberFault Nat
  | v, [] => .ok v
  | v, c :: rest =>
    match digitValue? base c with
    | none => .error .invalidDigit
    | some d =>
      let next := v * base + d
      if next < limit then readDigits base limit next rest else .error .overflow

/-- Reads a number below `limit`: digits with an optional plus sign in front. A lone sign is no
number. -/
def readNumber (base limit : Nat) (cs : List Char) : Except NumberFault Nat :=
  match cs with
  | [] => .error .empty
  | ['+'] | ['-'] => .error .invalidDigit
  | '+' :: rest => readDigits base limit 0 rest
  | _ => readDigits base limit 0 cs

/-- Why text cannot be taken for a number. -/
inductive NumberError where
  /-- The text is not a number. -/
  | fault (f : NumberFault)
  /-- The text has no boundary between characters after two bytes, where a base mark would end. -/
  | splitCharacter
deriving DecidableEq, Repr

/-- The characters after the first two bytes of the text; `none` if a character lies across. -/
def dropTwoBytes? : List Char → Option (List Char)
  | c :: rest =>
    if c.utf8Size = 2 then some rest
    else if c.utf8Size = 1 then
      match rest with
      | d :: rest => if d.utf8Size = 1 then some rest else none
      | [] => some []
    else none
  | [] => some []

/-- Reads a number of 32 bits: in base 16 after `0x`, else in base ten. -/
def parseNumber (s : String) : Except NumberError UInt32 :=
  let cs := s.toList.filter (· ≠ '_')
  match dropTwoBytes? cs with
  | none => .error .splitCharacter
  | some rest =>
    let marked := cs.take 2 = ['0', 'x'] ∨ cs.take 2 = ['0', 'X']
    let v := if marked then readNumber 16 0x100000000 rest else readNumber 10 0x100000000 cs
    match v with
    | .ok v => .ok (UInt32.ofNat v)
    | .error f => .error (.fault f)

end X86
