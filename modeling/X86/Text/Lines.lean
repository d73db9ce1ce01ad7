/-!
# Lines

A line ends with a line feed, and a carriage return right before it belongs to that end. The last
line may lack its end.
-/

namespace X86.Text

/-- A line without the carriage return of its end; the characters come last one first. -/
def dropReturn : List Char → List Char
  | '\r' :: cs => cs
  | cs => cs

/-- Cuts text into lines; `line` holds the characters of the first one so far, last one first. -/
def linesFrom (line : List Char) : List Char → List String
  | [] => if line.isEmpty then [] else [String.ofList line.reverse]
  | c :: rest =>
    if c = '\n' then String.ofList (dropReturn line).reverse :: linesFrom [] rest
    else linesFrom (c :: line) rest

/-- The lines of a text, without their ends. -/
def lines (s : String) : List String :=
  linesFrom [] s.toList

end X86.Text
