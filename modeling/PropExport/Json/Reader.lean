import PropExport.Json.Basic
import PropExport.Numeral

/-!
# Reading JSON

Reading never fails. Where the text stops being JSON the result holds a fault, and everything before
it is as written, so that a decoder which walks the value in order meets problems in the order of
the text. The reader sets no limit to nesting.
-/

namespace PropExport.Json

/-- The characters allowed between lexemes. -/
def isBlank (c : Char) : Bool :=
  c == ' ' || c == '\n' || c == '\t' || c == '\r'

/-- The text after its leading blanks. -/
def dropBlanks (cs : List Char) : List Char :=
  cs.dropWhile isBlank

/-- The value of a hexadecimal digit of either case. -/
def hexDigit? (c : Char) : Option Nat :=
  if c.isDigit then some (c.toNat - '0'.toNat)
  else if 'a' ≤ c && c ≤ 'f' then some (c.toNat - 'a'.toNat + 10)
  else if 'A' ≤ c && c ≤ 'F' then some (c.toNat - 'A'.toNat + 10)
  else none

/-- The number that four hexadecimal digits stand for. -/
def hex4? (a b c d : Char) : Option Nat := do
  let a ← hexDigit? a
  let b ← hexDigit? b
  let c ← hexDigit? c
  let d ← hexDigit? d
  return ((a * 16 + b) * 16 + c) * 16 + d

/-- The character after a backslash, unless the escape is unknown. -/
def unescape? : Char → Option Char
  | '"' => some '"'
  | '\\' => some '\\'
  | '/' => some '/'
  | 'b' => some '\x08'
  | 'f' => some '\x0c'
  | 'n' => some '\n'
  | 'r' => some '\r'
  | 't' => some '\t'
  | _ => none

/-- Whether a code unit opens a surrogate pair. -/
def isHighSurrogate (unit : Nat) : Bool :=
  0xd800 ≤ unit && unit < 0xdc00

/-- Whether a code unit closes a surrogate pair. -/
def isLowSurrogate (unit : Nat) : Bool :=
  0xdc00 ≤ unit && unit < 0xe000

/-- The character that a surrogate pair stands for. -/
def ofSurrogates (high low : Nat) : Char :=
  Char.ofNat (0x10000 + (high - 0xd800) * 0x400 + (low - 0xdc00))

/-- The text that a row of code units stands for, unless half of a surrogate pair stands alone. -/
def ofUnits? : List Nat → Option (List Char)
  | [] => some []
  | unit :: units =>
    if isHighSurrogate unit then
      match units with
      | next :: units =>
        if isLowSurrogate next then (ofUnits? units).map (ofSurrogates unit next :: ·) else none
      | [] => none
    else if isLowSurrogate unit then none
    else (ofUnits? units).map (Char.ofNat unit :: ·)

/-- Scans a string after its opening quote. Gives its code units, an unescaped character being one
unit, and what follows the closing quote; gives nothing if the string is not in correct form. The
units read so far are collected in reverse. -/
def scanUnits (done : List Nat) : List Char → Option (List Nat × List Char)
  | [] => none
  | '"' :: cs => some (done.reverse, cs)
  | '\\' :: 'u' :: a :: b :: c :: d :: cs =>
    match hex4? a b c d with
    | none => none
    | some unit => scanUnits (unit :: done) cs
  | '\\' :: e :: cs =>
    match unescape? e with
    | none => none
    | some c => scanUnits (c.toNat :: done) cs
  | c :: cs => if c.toNat < 0x20 then none else scanUnits (c.toNat :: done) cs

/-- Scans a string after its opening quote. Gives the text, unless it is illegible, and what follows
the closing quote. -/
def scanString (cs : List Char) : Option (Option String × List Char) :=
  (scanUnits [] cs).map fun (units, rest) => ((ofUnits? units).map String.ofList, rest)

/-- The digits at the start of a text and what follows them. -/
def spanDigits (cs : List Char) : List Char × List Char :=
  (cs.takeWhile Char.isDigit, cs.dropWhile Char.isDigit)

/-- Scans the digits after a decimal point, if there is one. A point without digits is wrong. -/
def scanFraction : List Char → Option (List Char × List Char)
  | '.' :: cs =>
    match spanDigits cs with
    | ([], _) => none
    | (digits, rest) => some (digits, rest)
  | cs => some ([], cs)

/-- Scans an exponent, if there is one. An exponent mark without digits is wrong. -/
def scanExponent (cs : List Char) : Option (Option Int × List Char) :=
  match cs with
  | c :: rest =>
    if c == 'e' || c == 'E' then
      let (negative, rest) :=
        match rest with
        | '-' :: rest => (true, rest)
        | '+' :: rest => (false, rest)
        | rest => (false, rest)
      match spanDigits rest with
      | ([], _) => none
      | (digits, rest) =>
        let n := Numeral.ofDigits digits
        some (some (if negative then -(n : Int) else n), rest)
    else some (none, cs)
  | [] => some (none, [])

/-- Puts digits behind a number for as long as it fits into 64 bits, and gives the digits that are
left. -/
def fitDigits (n : Nat) : List Char → Nat × List Char
  | [] => (n, [])
  | c :: cs =>
    let next := 10 * n + Numeral.digitValue c
    if next < UInt64.size then fitDigits next cs else (n, c :: cs)

/-- The double nearest to a natural number, as if there were no largest one. It has 53 significant
bits; halfway between two of them the one with an even significand is taken. -/
def nearestDouble (n : Nat) : Nat :=
  let unit := Nat.pow 2 (n.log2 - 52)
  let significand := n / unit
  let rest := n % unit
  if 2 * rest < unit || (2 * rest == unit && significand % 2 == 0) then significand * unit
  else (significand + 1) * unit

/-- The least number that no longer rounds to a finite double. -/
def doubleBound : Nat :=
  Nat.pow 2 1024 - Nat.pow 2 970

/-- The largest power of ten that is a finite double. -/
def maxPower : Nat := 308

/-- The largest exponent that is taken as it is written. -/
def maxExponent : Nat := 2147483647

/-- Whether `significand * 10 ^ exponent` is too large for a double. It is computed in doubles: the
significand and the power of ten are rounded before they are multiplied. -/
def overflowsDouble (significand : Nat) (exponent : Int) : Bool :=
  if exponent < 0 then false
  else if exponent > maxPower then significand != 0
  else doubleBound ≤ nearestDouble significand * nearestDouble (Nat.pow 10 exponent.toNat)

/-- Whether a number with these digits in front of and behind the decimal point and this exponent is
out of range. Only as many digits count as fit into 64 bits. Those left in front of the point raise
the exponent, those left behind it are dropped. -/
def isOutOfRange (whole fraction : List Char) (exponent : Int) : Bool :=
  let (kept, surplus) := fitDigits 0 whole
  let (significand, dropped) := fitDigits kept fraction
  if exponent.natAbs > maxExponent then significand != 0 && exponent > 0
  else
    let scale : Int := surplus.length - (fraction.length - dropped.length)
    overflowsDouble significand (scale + exponent)

/-- Scans a number. A whole part of more than one digit does not start with zero. -/
def scanNumber (cs : List Char) : Option (Json × List Char) := do
  let (negative, unsigned) :=
    match cs with
    | '-' :: rest => (true, rest)
    | rest => (false, rest)
  let (whole, afterWhole) := spanDigits unsigned
  if whole.isEmpty || (whole.length > 1 && whole.head? == some '0') then none
  let (fraction, afterFraction) ← scanFraction afterWhole
  let (exponent, rest) ← scanExponent afterFraction
  if isOutOfRange whole fraction (exponent.getD 0) then
    return (.illegible, rest)
  else if negative || !fraction.isEmpty || exponent.isSome then
    return (.numeral (String.ofList (cs.take (cs.length - rest.length))), rest)
  else
    return (.nat (Numeral.ofDigits whole), rest)

mutual

/-- Reads a value at the start of a text and gives what follows it. The first argument bounds the
number of nested calls; twice the length of the text is enough. -/
def scanValue : Nat → List Char → Json × List Char
  | 0, _ => (.fault, [])
  | n + 1, cs =>
    match dropBlanks cs with
    | 'n' :: 'u' :: 'l' :: 'l' :: rest => (.null, rest)
    | 't' :: 'r' :: 'u' :: 'e' :: rest => (.bool true, rest)
    | 'f' :: 'a' :: 'l' :: 's' :: 'e' :: rest => (.bool false, rest)
    | '"' :: rest =>
      match scanString rest with
      | none => (.fault, [])
      | some (none, rest) => (.illegible, rest)
      | some (some s, rest) => (.str s, rest)
    | '[' :: rest =>
      match dropBlanks rest with
      | ']' :: rest => (.arr [], rest)
      | rest =>
        let (elems, rest) := scanElems n rest
        (.arr elems, rest)
    | '{' :: rest =>
      match dropBlanks rest with
      | '}' :: rest => (.obj [], rest)
      | rest =>
        let (members, rest) := scanMembers n rest
        (.obj members, rest)
    | rest =>
      match scanNumber rest with
      | none => (.fault, [])
      | some (v, rest) => (v, rest)

/-- Reads the elements of an array up to its closing bracket, at least one. -/
def scanElems : Nat → List Char → List Json × List Char
  | 0, _ => ([.fault], [])
  | n + 1, cs =>
    let (v, rest) := scanValue n cs
    match dropBlanks rest with
    | ',' :: rest =>
      let (vs, rest) := scanElems n rest
      (v :: vs, rest)
    | ']' :: rest => ([v], rest)
    | _ => ([v, .fault], [])

/-- Reads the members of an object up to its closing bracket, at least one. A member whose name
cannot be read is a fault under the empty name. -/
def scanMembers : Nat → List Char → List (String × Json) × List Char
  | 0, _ => ([("", .fault)], [])
  | n + 1, cs =>
    match dropBlanks cs with
    | '"' :: rest =>
      match scanString rest with
      | some (some k, rest) =>
        match dropBlanks rest with
        | ':' :: rest =>
          let (v, rest) := scanValue n rest
          match dropBlanks rest with
          | ',' :: rest =>
            let (ms, rest) := scanMembers n rest
            ((k, v) :: ms, rest)
          | '}' :: rest => ([(k, v)], rest)
          | _ => ([(k, v), ("", .fault)], [])
        | _ => ([("", .fault)], [])
      | _ => ([("", .fault)], [])
    | _ => ([("", .fault)], [])

end

end PropExport.Json

namespace PropExport

/-- A text read as JSON: the value it starts with, and whether nothing but blanks follows. -/
structure Document where
  root : Json
  isClosed : Bool
  deriving Repr, Inhabited

/-- Reads a text as JSON. -/
def Document.read (text : String) : Document :=
  let cs := text.toList
  let (root, rest) := Json.scanValue (2 * cs.length + 2) cs
  { root, isClosed := (Json.dropBlanks rest).isEmpty }

end PropExport
