import X86.Text.Number

/-!
# The tokens of TOML

A TOML text is cut into tokens before anything else is decided about it. Strings are read with
their escapes here; numbers and dates are still words and punctuation.
-/

namespace X86.Toml

/-- A token. -/
inductive Token where
  /-- Blanks; `single` when they are one space. -/
  | blank (single : Bool)
  /-- The end of a line. -/
  | newline
  /-- A comment, without the end of its line. -/
  | comment
  /-- The mark between a key and its value. -/
  | equals
  /-- A point. -/
  | period
  /-- A comma. -/
  | comma
  /-- A colon. -/
  | colon
  /-- A plus sign. -/
  | plus
  /-- An opening brace. -/
  | leftBrace
  /-- A closing brace. -/
  | rightBrace
  /-- An opening bracket. -/
  | leftBracket
  /-- A closing bracket. -/
  | rightBracket
  /-- Letters, digits, hyphens and underscores. -/
  | word (text : String)
  /-- A quoted string; `multiline` when three quotes stand around it. -/
  | string (text : String) (multiline : Bool)
deriving DecidableEq, Repr

/-- Whether a character belongs to a word. -/
def isWordChar (c : Char) : Bool :=
  c.isAlphanum || c == '-' || c == '_'

/-- Whether a character is a blank inside a line. -/
def isSpace (c : Char) : Bool :=
  c == ' ' || c == '\t'

/-- Whether a character may stand for itself in a string. -/
def isPlain (c : Char) : Bool :=
  c == '\t' || (' ' ≤ c && c != '\x7f')

/-- Whether a comment goes on with a character. -/
def isCommentChar (c : Char) : Bool :=
  c == '\t' || ' ' ≤ c

/-- Reads the character whose number stands in the next `count` digits of base 16. -/
def codePoint? (count : Nat) (cs : List Char) : Option (List Char × List Char) := do
  let digits ← (cs.take count).mapM (digitValue? 16)
  let n := digits.foldl (fun n d => n * 16 + d) 0
  if digits.length = count ∧ n.isValidChar then some ([Char.ofNat n], cs.drop count) else none

/-- The text after a line end that only blanks precede. -/
def afterLineEnd? (cs : List Char) : Option (List Char) :=
  match cs.dropWhile isSpace with
  | '\n' :: rest => some rest
  | [] => some []
  | _ => none

/-- Reads what follows a backslash: the characters that it stands for, and the text after it. Where
lines may end, a backslash at the end of a line takes that end away, and all blanks and line ends
after it. -/
def escape? (multiline : Bool) : List Char → Option (List Char × List Char)
  | [] => none
  | c :: rest =>
    let fill (cs : List Char) := ([], cs.dropWhile fun c => isSpace c || c == '\n')
    match c with
    | '"' => some (['"'], rest)
    | '\\' => some (['\\'], rest)
    | 'b' => some (['\x08'], rest)
    | 'f' => some (['\x0c'], rest)
    | 'n' => some (['\n'], rest)
    | 'r' => some (['\r'], rest)
    | 't' => some (['\t'], rest)
    | 'u' => codePoint? 4 rest
    | 'U' => codePoint? 8 rest
    | '\n' => if multiline then some (fill rest) else none
    | c => if multiline && isSpace c then (afterLineEnd? rest).map fill else none

/-- How a string is written. -/
structure Quotes where
  /-- The quote that ends it. -/
  mark : Char
  /-- Whether backslashes are escapes. -/
  escapes : Bool
  /-- Whether it runs over lines and ends with three quotes. -/
  multiline : Bool

/-- Reads a string after its opening: its characters, and the text after it. Up to two quotes next
to the three that close a string over lines belong to the string. -/
def content? (q : Quotes) : List Char → Option (List Char × List Char)
  | [] => none
  | c :: rest =>
    if c = '\n' then
      if q.multiline then (content? q rest).map fun (s, r) => ('\n' :: s, r) else none
    else if c = q.mark then
      if q.multiline then
        let more := (rest.takeWhile (· == q.mark)).length
        if more < 2 then
          (content? q (rest.drop more)).map fun (s, r) => (List.replicate (more + 1) q.mark ++ s, r)
        else
          let extra := min (more - 2) 2
          some (List.replicate extra q.mark, rest.drop (2 + extra))
      else some ([], rest)
    else if q.escapes && c == '\\' then
      match escape? q.multiline rest with
      | some (s, after) =>
        if after.length ≤ rest.length then
          (content? q after).map fun (t, r) => (s ++ t, r)
        else none
      | none => none
    else if isPlain c then (content? q rest).map fun (s, r) => (c :: s, r)
    else none
termination_by cs => cs.length
decreasing_by
  · exact Nat.lt_succ_self rest.length
  · exact Nat.lt_succ_of_le (List.drop_sublist ..).length_le
  · exact Nat.lt_succ_of_le ‹_›
  · exact Nat.lt_succ_self rest.length

/-- Reads a string after its first quote. A line end right after three opening quotes is dropped. -/
def string? (mark : Char) (escapes : Bool) (cs : List Char) : Option (Token × List Char) :=
  let read (multiline : Bool) (cs : List Char) :=
    (content? { mark, escapes, multiline } cs).map fun (s, rest) =>
      (Token.string (String.ofList s) multiline, rest)
  match cs with
  | a :: b :: rest =>
    if a = mark then
      if b = mark then
        read true (if rest.head? = some '\n' then rest.tail else rest)
      else some (.string "" false, b :: rest)
    else read false cs
  | [a] => if a = mark then some (.string "" false, []) else none
  | [] => none

/-- Reads the token that starts with `c`. -/
def Token.next? (c : Char) (rest : List Char) : Option (Token × List Char) :=
  match c with
  | '\n' => some (.newline, rest)
  | '=' => some (.equals, rest)
  | '.' => some (.period, rest)
  | ',' => some (.comma, rest)
  | ':' => some (.colon, rest)
  | '+' => some (.plus, rest)
  | '{' => some (.leftBrace, rest)
  | '}' => some (.rightBrace, rest)
  | '[' => some (.leftBracket, rest)
  | ']' => some (.rightBracket, rest)
  | '#' => some (.comment, rest.dropWhile isCommentChar)
  | '"' => string? '"' true rest
  | '\'' => string? '\'' false rest
  | c =>
    if isSpace c then
      some (.blank (c == ' ' && (rest.takeWhile isSpace).isEmpty), rest.dropWhile isSpace)
    else if isWordChar c then
      some (.word (String.ofList (c :: rest.takeWhile isWordChar)), rest.dropWhile isWordChar)
    else none

/-- Cuts text into tokens; `none` where no token starts. -/
def Token.ofChars? : List Char → Option (List Token)
  | [] => some []
  | c :: rest =>
    match Token.next? c rest with
    | some (t, after) =>
      if after.length ≤ rest.length then (Token.ofChars? after).map (t :: ·) else none
    | none => none
termination_by cs => cs.length

/-- Writes each pair of a carriage return and a line feed as one line end. -/
def foldLineEnds : List Char → List Char
  | '\r' :: '\n' :: rest => '\n' :: foldLineEnds rest
  | c :: rest => c :: foldLineEnds rest
  | [] => []

/-- The tokens of a text. A byte order mark in front is skipped. -/
def Token.ofText? (s : String) : Option (List Token) :=
  let cs := foldLineEnds s.toList
  Token.ofChars? (if cs.head? = some '\ufeff' then cs.tail else cs)

end X86.Toml
