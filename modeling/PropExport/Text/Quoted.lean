import PropExport.Text.Extending
import PropExport.Text.Unprintable

/-!
# Quoted text

Text is shown between double quotes. The quote, the backslash and the usual layout characters have
short escapes, every other character that would not be visible on its own is written as `\u{...}`
with its code point in hexadecimal.
-/

namespace PropExport.Text

/-- Whether a code point lies in one of the ranges of a table. -/
def inRanges (table : List (Nat × Nat)) (code : Nat) : Bool :=
  table.any fun (first, last) => first ≤ code && code ≤ last

/-- Whether a character is shown as itself inside quotes. Characters from space to tilde always
are. -/
def isShown (c : Char) : Bool :=
  let code := c.toNat
  (0x20 ≤ code && code < 0x7f) ||
    !(inRanges unprintable code || inRanges extending code)

/-- How one character stands between the quotes. -/
def quoteChar (c : Char) : List Char :=
  match c with
  | '"' => ['\\', '"']
  | '\\' => ['\\', '\\']
  | '\t' => ['\\', 't']
  | '\r' => ['\\', 'r']
  | '\n' => ['\\', 'n']
  | '\x00' => ['\\', '0']
  | c =>
    if isShown c then [c]
    else ['\\', 'u', '{'] ++ Nat.toDigits 16 c.toNat ++ ['}']

/-- A text in double quotes, on one line and with every character visible. -/
def quote (s : String) : String :=
  "\"" ++ String.ofList (s.toList.flatMap quoteChar) ++ "\""

end PropExport.Text
