import X86.Toml.Value

/-!
# TOML documents

A document is a list of entries followed by sections. A section's header is a dotted name; a header
in double brackets may occur again, and each occurrence opens a new element of a list.
-/

namespace X86.Toml

/-- The header of a section. -/
structure Header where
  /-- The parts of its name. -/
  path : List String
  /-- Whether it stands in double brackets. -/
  element : Bool
deriving DecidableEq, Repr

/-- A section: its header and its entries. -/
structure Section where
  /-- The header. -/
  header : Header
  /-- The entries under it. -/
  entries : Entries

/-- A document. -/
structure Document where
  /-- The entries before the first header. -/
  entries : Entries
  /-- The sections, in their order. -/
  sections : List Section

/-- A line that says something. -/
inductive Line where
  /-- A header. -/
  | header (h : Header)
  /-- A key with its value. -/
  | entry (first : String) (more : List String) (v : Value)

/-- Skips the end of a line, a comment before it included. -/
def endOfLine? (ts : List Token) : Option (List Token) :=
  match skipBlank ts with
  | [] | [.comment] => some []
  | .newline :: ts | .comment :: .newline :: ts => some ts
  | _ => none

/-- Reads a header after its first bracket. -/
def header? (ts : List Token) : Option (Header × List Token) :=
  let (element, ts) := match ts with
    | .leftBracket :: ts => (true, ts)
    | ts => (false, ts)
  match key? (skipBlank ts), element with
  | some (first, more, .rightBracket :: ts), false => some ({ path := first :: more, element }, ts)
  | some (first, more, .rightBracket :: .rightBracket :: ts), true =>
    some ({ path := first :: more, element }, ts)
  | _, _ => none

/-- Reads a line that starts with a key or a bracket. -/
def line? : List Token → Option (Line × List Token)
  | .leftBracket :: ts => do
    let (h, ts) ← header? ts
    some (.header h, ← endOfLine? ts)
  | ts => do
    let (first, more, ts) ← key? ts
    match ts with
    | .equals :: ts =>
      let (v, ts) ← value? (skipBlank ts)
      some (.entry first more v, ← endOfLine? ts)
    | _ => none

/-- Reads all lines. -/
def lines? (ts : List Token) : Option (List Line) :=
  match skipLines ts with
  | [] => some []
  | t :: rest =>
    match line? (t :: rest) with
    | some (l, after) =>
      if after.length < ts.length then (lines? after).map (l :: ·) else none
    | none => none
termination_by ts.length

/-- Adds a line at the end of a document. -/
def Document.addLine? (d : Document) : Line → Option Document
  | .header h => some { d with sections := d.sections ++ [{ header := h, entries := [] }] }
  | .entry first more v =>
    match d.sections.getLast? with
    | none => (d.entries.add? first more v).map fun es => { d with entries := es }
    | some s =>
      (s.entries.add? first more v).map fun es =>
        { d with sections := d.sections.dropLast ++ [{ s with entries := es }] }

/-- Cuts a list in front of each member that satisfies `p`. -/
def cutBefore {α : Type} (p : α → Bool) : List α → List (List α)
  | [] => []
  | x :: xs =>
    match cutBefore p xs with
    | [] => [[x]]
    | group :: groups =>
      if group.head?.any p then [x] :: group :: groups else (x :: group) :: groups

/-- The headers below a name, without that name. -/
def headersUnder (name : String) (hs : List Header) : List Header :=
  hs.filterMap fun h =>
    match h.path with
    | [] => none
    | first :: path => if first = name then some { h with path } else none

/-- Whether headers fit together, up to a depth of names. A name whose first header is in double
brackets is a list; between two of its elements its plain header must not occur. Any other name has
at most one plain header and none in double brackets. -/
def headersFit (depth : Nat) (hs : List Header) : Bool :=
  match depth with
  | 0 => true
  | depth + 1 =>
    (hs.filterMap (·.path.head?)).eraseDups.all fun name =>
      let group := headersUnder name hs
      let isPlain (h : Header) := h.path.isEmpty && !h.element
      let isElement (h : Header) := h.path.isEmpty && h.element
      let below (hs : List Header) := headersFit depth (hs.filter (!·.path.isEmpty))
      if group.head?.any isElement then
        (cutBefore isElement group).all fun hs => !hs.any isPlain && below hs
      else group.countP isPlain ≤ 1 && !group.any isElement && below group

/-- Whether the headers of a document fit together. -/
def Document.headersFit (d : Document) : Bool :=
  let hs := d.sections.map (·.header)
  Toml.headersFit (hs.foldl (fun n h => max n h.path.length) 0) hs

/-- Reads a document. -/
def Document.parse? (s : String) : Option Document := do
  let d ← (← lines? (← Token.ofText? s)).foldlM Document.addLine? { entries := [], sections := [] }
  if d.headersFit then some d else none

end X86.Toml
