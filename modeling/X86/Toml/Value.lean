import X86.Toml.Number

/-!
# Values of TOML

The values that keys can have, and how they are read from tokens. A table in braces is closed; a
table that dotted keys make grows with every key that has the same beginning.
-/

namespace X86.Toml

/-- A value. -/
inductive Value where
  /-- A string. -/
  | string (s : String)
  /-- An integer. -/
  | integer (n : Int)
  /-- A number that is no integer. -/
  | float
  /-- A truth value. -/
  | boolean (b : Bool)
  /-- A date, a time of day, or both. -/
  | datetime
  /-- A list of values. -/
  | array (items : List Value)
  /-- Keys with values, in their order; `dotted` when dotted keys made the table. -/
  | table (entries : List (String × Value)) (dotted : Bool)
deriving Repr, Inhabited

/-- A number as a value. -/
def Value.ofNumber : Number → Value
  | .integer n => .integer n
  | .float => .float

/-- Keys with their values, in their order. -/
abbrev Entries := List (String × Value)

/-- Replaces the value at the first entry with the given key. -/
def Entries.update (key : String) (v : Value) : Entries → Entries
  | [] => []
  | (k, old) :: rest => if k = key then (k, v) :: rest else (k, old) :: update key v rest

/-- Adds a value under a dotted key. All parts of the key but the last name tables that dotted keys
made; a key without dots is always added, even a second time. -/
def Entries.add? (entries : Entries) (key : String) : (more : List String) → Value → Option Entries
  | [], v => some (entries ++ [(key, v)])
  | part :: more, v =>
    match entries.find? (·.1 == key) with
    | some (_, .table inner true) =>
      (Entries.add? inner part more v).map fun inner => entries.update key (.table inner true)
    | some _ => none
    | none =>
      (Entries.add? [] part more v).map fun inner => entries ++ [(key, .table inner true)]

/-- Skips blanks; they stand only one by one between other tokens. -/
def skipBlank : List Token → List Token
  | .blank _ :: ts => ts
  | ts => ts

/-- Whether a token is a blank, a comment or a line end. -/
def Token.isFiller : Token → Bool
  | .blank _ | .newline | .comment => true
  | _ => false

/-- Skips blanks, comments and line ends. -/
def skipLines (ts : List Token) : List Token :=
  ts.dropWhile Token.isFiller

theorem length_skipLines_le (ts : List Token) : (skipLines ts).length ≤ ts.length :=
  (List.dropWhile_suffix _).length_le

/-- One part of a key: a word, or a string on one line. -/
def keyPart? : List Token → Option (String × List Token)
  | .word w :: ts => some (w, ts)
  | .string s false :: ts => some (s, ts)
  | _ => none

/-- Further parts of a dotted key, each after a point, and the blanks after them. -/
def moreParts? (ts : List Token) : Option (List String × List Token) :=
  match ts with
  | .period :: ts =>
    match keyPart? (skipBlank ts) with
    | some (s, after) =>
      if (skipBlank after).length ≤ ts.length then
        (moreParts? (skipBlank after)).map fun (more, rest) => (s :: more, rest)
      else none
    | none => none
  | _ => some ([], ts)
termination_by ts.length

/-- Reads a dotted key and the blanks after it: its first part, the other parts, and the rest. -/
def key? (ts : List Token) : Option (String × List String × List Token) := do
  let (first, ts) ← keyPart? ts
  let (more, ts) ← moreParts? (skipBlank ts)
  some (first, more, ts)

/-- Reads a value that starts with a word. -/
def wordValue? (w : String) (ts : List Token) : Option (Value × List Token) :=
  if w = "true" then some (.boolean true, ts)
  else if w = "false" then some (.boolean false, ts)
  else if w = "inf" ∨ w = "nan" ∨ w.toList.head?.any (fun c => c == '-' || c.isDigit) then
    if startsDate w.toList then (datetime? false ts).map (.datetime, ·)
    else match ts with
      | .colon :: ts' => (datetime? true ts').map (.datetime, ·)
      | _ => (number? w.toList ts).map fun (n, ts) => (.ofNumber n, ts)
  else none

mutual

/-- Reads a value. -/
def value? (ts : List Token) : Option (Value × List Token) :=
  match ts with
  | .string s _ :: ts => some (.string s, ts)
  | .word w :: ts => wordValue? w ts
  | .plus :: .word w :: ts => (number? w.toList ts).map fun (n, ts) => (.ofNumber n, ts)
  | .leftBracket :: ts => (items? ts).map fun (vs, ts) => (.array vs, ts)
  | .leftBrace :: ts =>
    match skipBlank ts with
    | .rightBrace :: ts => some (.table [] false, ts)
    | _ => (pairs? [] ts).map fun (es, ts) => (.table es false, ts)
  | _ => none
termination_by 2 * ts.length

/-- Reads the items of a list and the bracket after them. A comma may stand after the last. -/
def items? (ts : List Token) : Option (List Value × List Token) :=
  have := length_skipLines_le ts
  match skipLines ts with
  | .rightBracket :: ts => some ([], ts)
  | _ =>
    match value? (skipLines ts) with
    | none => none
    | some (v, after) =>
      match skipLines after with
      | .comma :: after =>
        if after.length < ts.length then (items? after).map fun (vs, ts) => (v :: vs, ts) else none
      | .rightBracket :: ts => some ([v], ts)
      | _ => none
termination_by 2 * ts.length + 1

/-- Reads the entries of a table in braces and the brace after them. -/
def pairs? (entries : Entries) (ts : List Token) : Option (Entries × List Token) :=
  match key? (skipBlank ts) with
  | some (first, more, .equals :: after) =>
    if (skipBlank after).length < ts.length then
      match value? (skipBlank after) with
      | none => none
      | some (v, after) =>
        match Entries.add? entries first more v, skipBlank after with
        | some entries, .rightBrace :: ts => some (entries, ts)
        | some entries, .comma :: after =>
          if after.length < ts.length then pairs? entries after else none
        | _, _ => none
    else none
  | _ => none
termination_by 2 * ts.length + 1

end

end X86.Toml
