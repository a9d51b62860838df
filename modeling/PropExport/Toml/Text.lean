import PropExport.Json.Reader

/-!
# TOML texts

Texts and keys of the TOML format: bare keys, quoted texts with escapes, literal texts without, and
the many-line forms of both. Scanners give what they read and what follows it.
-/

namespace PropExport.Toml

/-- The blanks inside a line. -/
def isBlank (c : Char) : Bool :=
  c == ' ' || c == '\t'

/-- The text after its leading blanks. -/
def dropBlanks (cs : List Char) : List Char :=
  cs.dropWhile isBlank

/-- Whether a character may stand as itself inside a line of text. -/
def isPlain (c : Char) : Bool :=
  c == '\t' || (0x20 ≤ c.toNat && c.toNat != 0x7f)

/-- Whether a character may stand in a bare key. -/
def isBareKey (c : Char) : Bool :=
  c.isAlphanum || c == '_' || c == '-'

/-- The character after a backslash, unless the escape is unknown. -/
def unescape? : Char → Option Char
  | 'b' => some '\x08'
  | 't' => some '\t'
  | 'n' => some '\n'
  | 'f' => some '\x0c'
  | 'r' => some '\r'
  | '"' => some '"'
  | '\\' => some '\\'
  | _ => none

/-- The character with a code point, unless there is none. -/
def ofCode? (code : Nat) : Option Char :=
  if code.isValidChar then some (Char.ofNat code) else none

/-- The character of an escape with four hexadecimal digits. -/
def escape4? (a b c d : Char) : Option Char := do
  ofCode? (← Json.hex4? a b c d)

/-- The character of an escape with eight hexadecimal digits. -/
def escape8? (a b c d e f g h : Char) : Option Char := do
  ofCode? ((← Json.hex4? a b c d) * 0x10000 + (← Json.hex4? e f g h))

/-- Scans a quoted text after its opening quote. The characters read so far are collected in
reverse. -/
def scanBasic (done : List Char) : List Char → Option (String × List Char)
  | [] => none
  | '"' :: cs => some (String.ofList done.reverse, cs)
  | '\\' :: 'u' :: a :: b :: c :: d :: cs =>
    match escape4? a b c d with
    | none => none
    | some x => scanBasic (x :: done) cs
  | '\\' :: 'U' :: a :: b :: c :: d :: e :: f :: g :: h :: cs =>
    match escape8? a b c d e f g h with
    | none => none
    | some x => scanBasic (x :: done) cs
  | '\\' :: e :: cs =>
    match unescape? e with
    | none => none
    | some x => scanBasic (x :: done) cs
  | c :: cs => if isPlain c then scanBasic (c :: done) cs else none

/-- Scans a literal text after its opening quote. -/
def scanLiteral (done : List Char) : List Char → Option (String × List Char)
  | [] => none
  | '\x27' :: cs => some (String.ofList done.reverse, cs)
  | c :: cs => if isPlain c then scanLiteral (c :: done) cs else none

/-- Where the scanner of a many-line text stands: in its text, after a backslash that has to end its
line, or in the blanks and line ends that such a backslash removes. -/
inductive Phase where
  | within
  | lineEnd
  | removing
  deriving DecidableEq, Repr

/-- Scans a quoted many-line text after its opening quotes. Up to two quotes may stand before the
closing three. -/
def scanManyBasic (phase : Phase) (done : List Char) :
    List Char → Option (String × List Char)
  | [] => none
  | '\r' :: '\n' :: cs =>
    if phase = .within then scanManyBasic .within ('\n' :: done) cs
    else scanManyBasic .removing done cs
  | '\n' :: cs =>
    if phase = .within then scanManyBasic .within ('\n' :: done) cs
    else scanManyBasic .removing done cs
  | '"' :: '"' :: '"' :: '"' :: '"' :: cs =>
    if phase = .lineEnd then none else some (String.ofList ('"' :: '"' :: done).reverse, cs)
  | '"' :: '"' :: '"' :: '"' :: cs =>
    if phase = .lineEnd then none else some (String.ofList ('"' :: done).reverse, cs)
  | '"' :: '"' :: '"' :: cs =>
    if phase = .lineEnd then none else some (String.ofList done.reverse, cs)
  | '\\' :: 'u' :: a :: b :: c :: d :: cs =>
    if phase = .lineEnd then none else
      match escape4? a b c d with
      | none => none
      | some x => scanManyBasic .within (x :: done) cs
  | '\\' :: 'U' :: a :: b :: c :: d :: e :: f :: g :: h :: cs =>
    if phase = .lineEnd then none else
      match escape8? a b c d e f g h with
      | none => none
      | some x => scanManyBasic .within (x :: done) cs
  | '\\' :: '\r' :: '\n' :: cs =>
    if phase = .lineEnd then none else scanManyBasic .removing done cs
  | '\\' :: e :: cs =>
    if phase = .lineEnd then none
    else if e = '\n' then scanManyBasic .removing done cs
    else if isBlank e then scanManyBasic .lineEnd done cs
    else
      match unescape? e with
      | none => none
      | some x => scanManyBasic .within (x :: done) cs
  | c :: cs =>
    if phase ≠ .within ∧ isBlank c then scanManyBasic phase done cs
    else if phase = .lineEnd then none
    else if isPlain c then scanManyBasic .within (c :: done) cs
    else none

/-- Scans a literal many-line text after its opening quotes. Up to two quotes may stand before the
closing three. -/
def scanManyLiteral (done : List Char) : List Char → Option (String × List Char)
  | [] => none
  | '\r' :: '\n' :: cs => scanManyLiteral ('\n' :: done) cs
  | '\n' :: cs => scanManyLiteral ('\n' :: done) cs
  | '\x27' :: '\x27' :: '\x27' :: '\x27' :: '\x27' :: cs =>
    some (String.ofList ('\x27' :: '\x27' :: done).reverse, cs)
  | '\x27' :: '\x27' :: '\x27' :: '\x27' :: cs => some (String.ofList ('\x27' :: done).reverse, cs)
  | '\x27' :: '\x27' :: '\x27' :: cs => some (String.ofList done.reverse, cs)
  | c :: cs => if isPlain c then scanManyLiteral (c :: done) cs else none

/-- Drops the line end that may follow the opening quotes of a many-line text. -/
def dropLineEnd : List Char → List Char
  | '\r' :: '\n' :: cs => cs
  | '\n' :: cs => cs
  | cs => cs

/-- Scans a text in any of its four forms. -/
def scanText : List Char → Option (String × List Char)
  | '"' :: '"' :: '"' :: cs => scanManyBasic .within [] (dropLineEnd cs)
  | '"' :: cs => scanBasic [] cs
  | '\x27' :: '\x27' :: '\x27' :: cs => scanManyLiteral [] (dropLineEnd cs)
  | '\x27' :: cs => scanLiteral [] cs
  | _ => none

/-- Scans one part of a key: bare, quoted or literal. -/
def scanKeyPart : List Char → Option (String × List Char)
  | '"' :: cs => scanBasic [] cs
  | '\x27' :: cs => scanLiteral [] cs
  | cs =>
    match cs.takeWhile isBareKey with
    | [] => none
    | part => some (String.ofList part, cs.dropWhile isBareKey)

/-- Scans a key, whose parts are separated by points. Blanks may stand around each part. The first
argument bounds the number of parts; the length of the text is enough. -/
def scanKey : Nat → List Char → Option (List String × List Char)
  | 0, _ => none
  | n + 1, cs => do
    let (part, rest) ← scanKeyPart (dropBlanks cs)
    match dropBlanks rest with
    | '.' :: rest =>
      let (parts, rest) ← scanKey n rest
      return (part :: parts, rest)
    | rest => return ([part], rest)

end PropExport.Toml
