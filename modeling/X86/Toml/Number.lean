import X86.Toml.Token

/-!
# Numbers and dates of TOML

A number or a date is made of words and punctuation. Integers have a value; of numbers with a
fraction or an exponent, and of dates, only the shape is checked, and that a number is finite.
-/

namespace X86.Toml

/-- Takes digits from the front, single underscores between them dropped. `afterMark` tells that an
underscore came last. -/
def digitRun? (base : Nat) (afterMark : Bool) : List Char → Option (List Char × List Char)
  | [] => if afterMark then none else some ([], [])
  | c :: rest =>
    if (digitValue? base c).isSome then
      (digitRun? base false rest).map fun (ds, r) => (c :: ds, r)
    else if afterMark then none
    else if c = '_' then digitRun? base true rest
    else some ([], c :: rest)

/-- Takes at least one digit from the front. Without `zeros`, a zero in front is the only digit. -/
def digits? (base : Nat) (zeros : Bool) (cs : List Char) : Option (List Char × List Char) :=
  match cs with
  | [] => none
  | c :: _ =>
    if (digitValue? base c).isNone then none
    else do
      let (ds, rest) ← digitRun? base false cs
      if c = '0' ∧ ¬ zeros ∧ 1 < ds.length then none else some (ds, rest)

/-- The number that digits stand for. -/
def digitsValue (base : Nat) (ds : List Char) : Nat :=
  ds.foldl (fun n d => n * base + (digitValue? base d).getD 0) 0

/-- Splits off a sign; the flag tells a minus. -/
def sign (cs : List Char) : Bool × List Char :=
  match cs with
  | '-' :: rest => (true, rest)
  | _ => (false, cs)

/-- Reads an integer of 64 bits with a sign, in base ten or after a mark for base 16, 8 or 2. -/
def integer? (cs : List Char) : Option Int := do
  let (base, negative, body) := match cs with
    | '0' :: 'x' :: rest => (16, false, rest)
    | '0' :: 'o' :: rest => (8, false, rest)
    | '0' :: 'b' :: rest => (2, false, rest)
    | _ => (10, sign cs)
  let (ds, rest) ← digits? base (base != 10) body
  let n : Int := digitsValue base ds
  let v := if negative then -n else n
  if rest = [] ∧ -0x8000000000000000 ≤ v ∧ v < 0x8000000000000000 then some v else none

/-- Whether `mantissa * 10 ^ exponent` rounds to a finite number of double precision: it lies below
the middle between the largest of them and the next power of two. -/
def isFinite (mantissa : Nat) (exponent : Int) : Bool :=
  let places : Int := (Nat.toDigits 10 mantissa).length
  if mantissa = 0 ∨ places + exponent ≤ 300 then true
  else if places + exponent > 400 then false
  else
    let bound := 1 <<< 1024 - 1 <<< 970
    if 0 ≤ exponent then mantissa * Nat.pow 10 exponent.toNat < bound
    else mantissa < bound * Nat.pow 10 (-exponent).toNat

/-- Reads an exponent: the letter is the end of the word before a plus sign, or a part of a word. -/
def exponent? (cs : List Char) (ts : List Token) : Option (Int × List Token) := do
  let (negative, digits, ts) ← match cs with
    | [_] =>
      match ts with
      | .plus :: .word w :: ts => some (false, w.toList, ts)
      | _ => none
    | _ :: cs => let (negative, ds) := sign cs; some (negative, ds, ts)
    | [] => none
  let (ds, rest) ← digits? 10 true digits
  let n : Int := digitsValue 10 ds
  if rest = [] then some (if negative then -n else n, ts) else none

/-- Reads a number with a fraction or an exponent: the word in front, the word after the point if
there is one, and the tokens after that. The answer is what follows the number. -/
def float? (whole : List Char) (fraction : Option (List Char)) (ts : List Token) :
    Option (List Token) := do
  let (ds, rest) ← digits? 10 false (sign whole).2
  let (fs, rest) ← match fraction with
    | none => some ([], rest)
    | some f => if rest = [] then digits? 10 true f else none
  let (e, ts) ← match rest with
    | [] => some (0, ts)
    | c :: _ => if c = 'e' ∨ c = 'E' then exponent? rest ts else none
  if isFinite (digitsValue 10 (ds ++ fs)) (e - fs.length) then some ts else none

/-- A number: an integer with its value, or one that is not an integer. -/
inductive Number where
  /-- An integer. -/
  | integer (n : Int)
  /-- A number with a fraction or an exponent, infinity or no number at all. -/
  | float
deriving DecidableEq, Repr

/-- Reads a number that starts with a word. -/
def number? (w : List Char) (ts : List Token) : Option (Number × List Token) :=
  let based := w.head? = some '0' ∧ (w[1]? = some 'x' ∨ w[1]? = some 'o' ∨ w[1]? = some 'b')
  if ¬ based ∧ (w.contains 'e' ∨ w.contains 'E') then (float? w none ts).map (.float, ·)
  else
    match ts with
    | .period :: ts' =>
      if based then (integer? w).map (.integer ·, ts)
      else match ts' with
        | .word f :: ts' => (float? w (some f.toList) ts').map (.float, ·)
        | _ => none
    | _ =>
      if String.ofList w ∈ ["inf", "-inf", "nan", "-nan"] then some (.float, ts)
      else (integer? w).map (.integer ·, ts)

/-- Skips the fraction of a second. -/
def fraction? : List Token → Option (List Token)
  | .period :: .word _ :: ts => some ts
  | .period :: _ => none
  | ts => some ts

/-- Skips the distance from universal time. A minus belongs to the word in front, so the hours stand
here only after a plus; the minutes stand after a colon. -/
def offset? (ts : List Token) : Option (List Token) :=
  match ts with
  | .plus :: .word _ :: ts => minutes? ts
  | .plus :: _ => none
  | _ => minutes? ts
where
  /-- Skips the minutes of the distance. -/
  minutes? : List Token → Option (List Token)
    | .colon :: .word _ :: ts => some ts
    | .colon :: _ => none
    | ts => some ts

/-- Skips a time of day after its first colon. -/
def clock? : List Token → Option (List Token)
  | .word _ :: .colon :: .word _ :: ts => (fraction? ts).bind offset?
  | _ => none

/-- Skips the rest of a date or a time of day after its first word, or after that word and a colon.
A date and a time may have one space between them. -/
def datetime? (afterColon : Bool) (ts : List Token) : Option (List Token) :=
  let ts := match ts with
    | .blank true :: .word _ :: rest => rest
    | _ => ts
  if afterColon then clock? ts
  else match ts with
    | .colon :: ts => clock? ts
    | ts => some ts

/-- Whether a word starts a date: it has the letter between date and time, or a hyphen that is no
sign. -/
def startsDate (w : List Char) : Bool :=
  w.contains 'T' || w.contains 't'
    || (w.tail.contains '-' && !(signed 'e' w || signed 'E' w))
where
  /-- Whether a letter stands before a hyphen somewhere. -/
  signed (e : Char) (w : List Char) : Bool :=
    (w.zip w.tail).contains (e, '-')

end X86.Toml
