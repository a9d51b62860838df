import PropExport.Toml.Text

/-!
# TOML tables

Reading a text in the TOML format into a table. Of the values of the format, texts, empty arrays and
tables are read; a text that holds any other value is refused as a whole.
-/

namespace PropExport.Toml

/-- How a table came to be, which decides what may be added to it. -/
inductive Kind where
  /-- Named on the way to the table of a header. -/
  | implied
  /-- Opened by a header of its own. -/
  | headed
  /-- Named on the way to the last part of a key. -/
  | dotted
  /-- Written as a value. -/
  | inline
  deriving DecidableEq, Repr

/-- A value. -/
inductive Item where
  | text (s : String)
  | emptyArray
  | table (kind : Kind) (members : List (String × Item))
  deriving Repr, Inhabited

/-- The members of a table in written order. -/
abbrev Members := List (String × Item)

/-- Adds a member that is not there yet. -/
def addMember? (members : Members) (key : String) (item : Item) : Option Members :=
  match members.lookup key with
  | some _ => none
  | none => some (members ++ [(key, item)])

/-- Replaces the value of a member. -/
def setMember (members : Members) (key : String) (item : Item) : Members :=
  members.map fun (k, old) => if k = key then (k, item) else (k, old)

/-- Assigns a value to a dotted key. The tables on the way are opened as needed; a table that was
opened in another way cannot be extended. -/
def assign? (members : Members) : List String → Item → Option Members
  | [], _ => none
  | [key], item => addMember? members key item
  | key :: rest, item =>
    match members.lookup key with
    | none => (assign? [] rest item).map fun inner => members ++ [(key, .table .dotted inner)]
    | some (.table .dotted inner) =>
      (assign? inner rest item).map fun inner => setMember members key (.table .dotted inner)
    | some (.table .implied inner) =>
      if rest.length ≤ 1 then none
      else (assign? inner rest item).map fun inner => setMember members key (.table .implied inner)
    | some _ => none

/-- Opens the table of a header. The tables on the way are opened as needed; a table is opened by a
header of its own only once, and never after a dotted key or a value opened it. -/
def open? (members : Members) : List String → Option Members
  | [] => none
  | [key] =>
    match members.lookup key with
    | none => some (members ++ [(key, .table .headed [])])
    | some (.table .implied inner) => some (setMember members key (.table .headed inner))
    | some _ => none
  | key :: rest =>
    match members.lookup key with
    | none => (open? [] rest).map fun inner => members ++ [(key, .table .implied inner)]
    | some (.table .inline _) => none
    | some (.table kind inner) =>
      (open? inner rest).map fun inner => setMember members key (.table kind inner)
    | some _ => none

/-- Changes the table at a path. -/
def atPath? (members : Members) (change : Members → Option Members) :
    List String → Option Members
  | [] => change members
  | key :: rest =>
    match members.lookup key with
    | some (.table kind inner) =>
      (atPath? inner change rest).map fun inner => setMember members key (.table kind inner)
    | _ => none

/-- The text after a comment, if it starts with one. -/
def dropComment : List Char → List Char
  | '#' :: cs => cs.dropWhile isPlain
  | cs => cs

/-- The text after the end of a line, which blanks and a comment may precede. -/
def dropLine (cs : List Char) : Option (List Char) :=
  match dropComment (dropBlanks cs) with
  | [] => some []
  | '\n' :: rest => some rest
  | '\r' :: '\n' :: rest => some rest
  | _ => none

/-- The text after all blanks, comments and line ends. The first argument bounds their number. -/
def dropFiller : Nat → List Char → List Char
  | 0, cs => cs
  | n + 1, cs =>
    match cs with
    | ' ' :: rest => dropFiller n rest
    | '\t' :: rest => dropFiller n rest
    | '\n' :: rest => dropFiller n rest
    | '\r' :: '\n' :: rest => dropFiller n rest
    | '#' :: rest => dropFiller n (rest.dropWhile isPlain)
    | _ => cs

mutual

/-- Scans a value. The first argument bounds the number of nested calls; twice the length of the
text is enough. -/
def scanItem : Nat → List Char → Option (Item × List Char)
  | 0, _ => none
  | n + 1, cs =>
    match cs with
    | '[' :: rest =>
      match dropFiller rest.length rest with
      | ']' :: rest => some (.emptyArray, rest)
      | _ => none
    | '{' :: rest =>
      match dropBlanks rest with
      | '}' :: rest => some (.table .inline [], rest)
      | rest => (scanMembers n [] rest).map fun (members, rest) => (.table .inline members, rest)
    | cs => (scanText cs).map fun (s, rest) => (.text s, rest)

/-- Scans the members of a table that is written as a value, at least one. -/
def scanMembers : Nat → Members → List Char → Option (Members × List Char)
  | 0, _, _ => none
  | n + 1, members, cs => do
    let (key, rest) ← scanKey (cs.length + 1) cs
    match rest with
    | '=' :: rest =>
      let (item, rest) ← scanItem n (dropBlanks rest)
      let members ← assign? members key item
      match dropBlanks rest with
      | ',' :: rest => scanMembers n members rest
      | '}' :: rest => return (members, rest)
      | _ => none
    | _ => none

end

/-- Reads the lines of a text, given the path of the table that the last header opened and the whole
table read so far. The first argument bounds the number of lines. -/
def readLines : Nat → List String → Members → List Char → Option Members
  | 0, _, _, _ => none
  | n + 1, path, members, cs =>
    match dropBlanks cs with
    | [] => some members
    | '[' :: '[' :: _ => none
    | '[' :: rest => do
      let (key, rest) ← scanKey (rest.length + 1) rest
      match rest with
      | ']' :: rest => readLines n key (← open? members key) (← dropLine rest)
      | _ => none
    | c :: rest =>
      if c = '#' ∨ c = '\n' ∨ c = '\r' then do readLines n path members (← dropLine (c :: rest))
      else do
        let (key, rest) ← scanKey (rest.length + 2) (c :: rest)
        match rest with
        | '=' :: rest =>
          let (item, rest) ← scanItem (2 * rest.length + 2) (dropBlanks rest)
          readLines n path (← atPath? members (assign? · key item) path) (← dropLine rest)
        | _ => none

/-- Reads a text into a table. A byte order mark in front is skipped. -/
def parse (text : String) : Option Members :=
  let cs :=
    match text.toList with
    | '\ufeff' :: cs => cs
    | cs => cs
  readLines (cs.length + 1) [] [] cs

end PropExport.Toml
