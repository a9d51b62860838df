import PropExport.Json.Reader

/-!
# Written JSON

The written forms of a value differ in the blanks between its parts. The compact form has none; the
indented form puts each element and each member on a line of its own, two spaces deeper than the
bracket that holds it. Characters other than quotes, backslashes and controls stand for themselves.
-/

namespace PropExport.Json

/-- How one character stands in a string. -/
def escapeChar (c : Char) : List Char :=
  match c with
  | '"' => ['\\', '"']
  | '\\' => ['\\', '\\']
  | '\x08' => ['\\', 'b']
  | '\x0c' => ['\\', 'f']
  | '\n' => ['\\', 'n']
  | '\r' => ['\\', 'r']
  | '\t' => ['\\', 't']
  | c =>
    if c.toNat < 0x20 then
      ['\\', 'u', '0', '0', Nat.digitChar (c.toNat / 16), Nat.digitChar (c.toNat % 16)]
    else [c]

/-- A string in quotes. -/
def quoted (s : String) : String :=
  "\"" ++ String.ofList (s.toList.flatMap escapeChar) ++ "\""

/-- A value without inner structure. A fault is written as no text at all and an illegible lexeme as
half of a surrogate pair, so that each is read back as itself. -/
def leaf : Json → String
  | .null => "null"
  | .bool true => "true"
  | .bool false => "false"
  | .nat n => toString n
  | .numeral text => text
  | .str s => quoted s
  | .arr _ => "[]"
  | .obj _ => "\x7b\x7d"
  | .illegible => "\"\\ud800\""
  | .fault => ""

/-- The blanks between the parts of a value. -/
structure Layout where
  /-- What stands in front of a part at a nesting level. -/
  margin : Nat → String
  /-- What stands between a colon and the value after it. -/
  gap : String
  margin_blank : ∀ level, (margin level).toList.all isBlank = true
  gap_blank : gap.toList.all isBlank = true

/-- No blanks at all. -/
def Layout.compact : Layout where
  margin _ := ""
  gap := ""
  margin_blank _ := rfl
  gap_blank := rfl

/-- A line for each part, two spaces deeper at each nesting level. -/
def Layout.indented : Layout where
  margin level := String.ofList ('\n' :: List.replicate (2 * level) ' ')
  gap := " "
  margin_blank level := by simp [isBlank]
  gap_blank := by decide

mutual

/-- The written form of a value whose opening bracket stands at the given nesting level. -/
def written (layout : Layout) (level : Nat) : Json → String
  | .arr (v :: vs) =>
    "[" ++ layout.margin (level + 1) ++ v.written layout (level + 1) ++
      furtherElems layout level vs
  | .obj ((k, v) :: ms) =>
    "\x7b" ++ layout.margin (level + 1) ++ quoted k ++ ":" ++ layout.gap ++
      v.written layout (level + 1) ++ furtherMembers layout level ms
  | v => v.leaf

/-- What follows an element of an array, up to the closing bracket. -/
def furtherElems (layout : Layout) (level : Nat) : List Json → String
  | [] => layout.margin level ++ "]"
  | v :: vs =>
    "," ++ layout.margin (level + 1) ++ v.written layout (level + 1) ++
      furtherElems layout level vs

/-- What follows a member of an object, up to the closing bracket. -/
def furtherMembers (layout : Layout) (level : Nat) : List (String × Json) → String
  | [] => layout.margin level ++ "\x7d"
  | (k, v) :: ms =>
    "," ++ layout.margin (level + 1) ++ quoted k ++ ":" ++ layout.gap ++
      v.written layout (level + 1) ++ furtherMembers layout level ms

end

/-- The compact form of a value. -/
def compact (v : Json) : String :=
  v.written .compact 0

/-- The indented form of a whole document. -/
def pretty (v : Json) : String :=
  v.written .indented 0

end PropExport.Json
