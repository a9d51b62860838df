/-!
# Paths

Paths are texts whose parts are separated by slashes. A path that starts with a slash is absolute.
Empty parts, and the part `.` anywhere but at the start, do not count.
-/

namespace PropExport.Path

/-- Whether a path starts at the root. -/
def isAbsolute (path : String) : Bool :=
  path.toList.head? == some '/'

/-- A file name below a directory. An absolute name stands on its own. -/
def join (dir name : String) : String :=
  if isAbsolute name then name
  else if dir = "" ∨ dir.toList.getLast? = some '/' then dir ++ name
  else dir ++ "/" ++ name

/-- The pieces of a text between slashes, given the characters of the current piece in reverse. -/
def splitSlashes (current : List Char) : List Char → List String
  | [] => [String.ofList current.reverse]
  | '/' :: cs => String.ofList current.reverse :: splitSlashes [] cs
  | c :: cs => splitSlashes (c :: current) cs

/-- The parts of a path. -/
def parts (path : String) : List String :=
  splitSlashes [] path.toList

/-- The parts of a path before the last one that is not empty, that part, and whether a slash
follows it. -/
def split (path : String) : List String × String × Bool :=
  let reversed := (parts path).reverse
  match reversed.dropWhile (· == "") with
  | [] => ([], "", true)
  | last :: others => (others.reverse, last, reversed.head? == some "")

/-- How many characters at the start of a path are not part of what can be shortened: the slash of
an absolute path, or a leading `.` part. -/
def anchor : List Char → Nat
  | '/' :: _ => 1
  | ['.'] => 1
  | '.' :: '/' :: _ => 1
  | _ => 0

/-- Drops parts that do not count from the end of a reversed path. -/
def dropTrivial : List Char → List Char
  | '/' :: cs => dropTrivial cs
  | ['.'] => []
  | '.' :: '/' :: cs => dropTrivial cs
  | cs => cs

/-- Drops the last part of a reversed path. -/
def dropPart (cs : List Char) : List Char :=
  (cs.dropWhile (· != '/')).drop 1

/-- The path without its last part that counts. The root and the empty path have no parent. -/
def parent? (path : String) : Option String :=
  let cs := path.toList
  let fixed := cs.take (anchor cs)
  match dropTrivial (cs.drop (anchor cs)).reverse with
  | [] => if fixed = ['.'] then some "" else none
  | body => some (String.ofList (fixed ++ (dropTrivial (dropPart body)).reverse))

end PropExport.Path
