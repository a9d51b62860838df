import PropExport.Formula.Basic
import PropExport.Numeral

/-!
# The target grammar

How exported formulas are read. A text is cut into words, brackets and commas at blanks, brackets
and commas. A word in front of an opening bracket calls a function of that name; another word is a
numeral or one of three operators. Sums bind tightest and group to the left, then come equations,
then conjunctions, which group to the left as well.
-/

namespace PropExport

/-- A lexeme of the target language. -/
inductive Token where
  | word (text : String)
  | opening
  | closing
  | comma
  deriving DecidableEq, Repr

namespace Token

/-- The sign of a sum. -/
def plus : Token := .word "+"

/-- The sign of an equation. -/
def equals : Token := .word "=="

/-- The sign of a conjunction. -/
def both : Token := .word "&&"

/-- The word that has ended, given its characters in reverse, if there are any. -/
def ended (current : List Char) : List Token :=
  if current.isEmpty then [] else [.word (String.ofList current.reverse)]

/-- The tokens of a text, given the characters of the current word in reverse. -/
def scan (current : List Char) : List Char → List Token
  | [] => ended current
  | c :: cs =>
    if c = ' ' then ended current ++ scan [] cs
    else if c = '(' then ended current ++ .opening :: scan [] cs
    else if c = ')' then ended current ++ .closing :: scan [] cs
    else if c = ',' then ended current ++ .comma :: scan [] cs
    else scan (c :: current) cs

/-- The tokens of a text. -/
def ofText (text : String) : List Token :=
  scan [] text.toList

/-- A text that is a single word: it is not empty and holds none of the characters that end a
word. -/
def IsWord (text : String) : Prop :=
  text ≠ "" ∧ ∀ c ∈ text.toList, c ≠ ' ' ∧ c ≠ '(' ∧ c ≠ ')' ∧ c ≠ ','

instance (text : String) : Decidable (IsWord text) :=
  @instDecidableAnd _ _ inferInstance (List.decidableBAll _ _)

/-- Reads items with a separator between neighbours, at least one. The first argument bounds their
number. -/
def readRow {α : Type} (separator : Token) (item : List Token → Option (α × List Token)) :
    Nat → List Token → Option (List α × List Token)
  | 0, _ => none
  | n + 1, tokens =>
    match item tokens with
    | none => none
    | some (x, []) => some ([x], [])
    | some (x, token :: rest) =>
      if token = separator then
        (readRow separator item n rest).map fun (xs, rest) => (x :: xs, rest)
      else some ([x], token :: rest)

end Token

namespace Term

/-- The value of a numeral. -/
def numeral? (text : String) : Option Nat :=
  if text ≠ "" ∧ text.toList.all Char.isDigit then some (Numeral.ofDigits text.toList) else none

/-- Reads a call or a numeral, given how to read an argument. -/
def readAtom (argument : List Token → Option (Term × List Token)) :
    List Token → Option (Term × List Token)
  | .word fn :: .opening :: .closing :: rest => some (.app fn [], rest)
  | .word fn :: .opening :: rest =>
    match Token.readRow .comma argument (rest.length + 1) rest with
    | some (args, .closing :: rest) => some (.app fn args, rest)
    | _ => none
  | .word text :: rest => (numeral? text).map fun n => (.num n, rest)
  | _ => none

/-- The sum of some terms, grouped to the left. -/
def sum : List Term → Term
  | [] => .num 0
  | t :: ts => ts.foldl .add t

/-- Reads a sum. The first argument bounds how deep calls nest. -/
def read : Nat → List Token → Option (Term × List Token)
  | 0, _ => none
  | n + 1, tokens =>
    (Token.readRow .plus (readAtom (read n)) (tokens.length + 1) tokens).map
      fun (summands, rest) => (sum summands, rest)

end Term

namespace Formula

/-- Reads an equation. -/
def readEquation (tokens : List Token) : Option (Formula × List Token) :=
  match Term.read tokens.length tokens with
  | some (l, token :: rest) =>
    if token = .equals then (Term.read rest.length rest).map fun (r, rest) => (.eq l r, rest)
    else none
  | _ => none

/-- The conjunction of some formulas, grouped to the left. The empty one is true. -/
def conjunction : List Formula → Formula
  | [] => .eq (.num 0) (.num 0)
  | f :: fs => fs.foldl .and f

/-- Reads a whole text as a formula. -/
def read (text : String) : Option Formula :=
  let tokens := Token.ofText text
  match Token.readRow .both readEquation (tokens.length + 1) tokens with
  | some (equations, []) => some (conjunction equations)
  | _ => none

end Formula

end PropExport
