/-!
# Laid-out text

Rows of texts joined by a separator or written line by line.
-/

namespace PropExport.Text

/-- The texts one after another, with a separator between neighbours. -/
def separated (separator : String) : List String → String
  | [] => ""
  | [t] => t
  | t :: ts => t ++ separator ++ separated separator ts

/-- The texts each on a line of its own. Every line is ended. -/
def lines : List String → String
  | [] => ""
  | t :: ts => t ++ "\n" ++ lines ts

/-- The lines of a text, given the characters of its current line in reverse. A line ends at a line
feed, together with a carriage return before it; after the last line end a further line starts only
if there is a character in it. -/
def splitLines (current : List Char) : List Char → List String
  | [] => if current.isEmpty then [] else [String.ofList current.reverse]
  | '\n' :: cs =>
    let ended :=
      match current with
      | '\r' :: current => current
      | current => current
    String.ofList ended.reverse :: splitLines [] cs
  | c :: cs => splitLines (c :: current) cs

/-- The lines of a text. -/
def linesOf (s : String) : List String :=
  splitLines [] s.toList

end PropExport.Text
