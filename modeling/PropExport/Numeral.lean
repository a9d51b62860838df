/-!
# Natural numerals

A natural number is written in decimal digits. Underscores may separate digits, one plus sign may
stand in front, and leading zeros are allowed.
-/

namespace PropExport

/-- Why a text is not a natural numeral. -/
inductive NumeralError where
  /-- Nothing is left to read, possibly after a plus sign. -/
  | empty
  /-- A character is neither a digit nor an underscore between digits. -/
  | invalidDigit
  deriving DecidableEq, Repr

/-- The wording of a numeral error. -/
def NumeralError.message : NumeralError → String
  | .empty => "cannot parse integer from empty string"
  | .invalidDigit => "invalid digit found in string"

namespace Numeral

/-- The value of a decimal digit. -/
def digitValue (c : Char) : Nat :=
  c.toNat - '0'.toNat

/-- The number that a row of decimal digits stands for. -/
def ofDigits (digits : List Char) : Nat :=
  digits.foldl (fun n c => 10 * n + digitValue c) 0

/-- Drops one plus sign in front, unless a second one follows it. -/
def dropPlus : List Char → List Char
  | '+' :: '+' :: cs => '+' :: '+' :: cs
  | '+' :: cs => cs
  | cs => cs

/-- Reads a natural numeral. -/
def parse (s : String) : Except NumeralError Nat :=
  match dropPlus s.toList with
  | [] => .error .empty
  | '_' :: _ => .error .invalidDigit
  | cs =>
    if cs.all fun c => c.isDigit || c == '_' then .ok (ofDigits (cs.filter Char.isDigit))
    else .error .invalidDigit

end Numeral

end PropExport
