import PropExport.Files.Path

/-!
# File trees

Directories and files below a starting directory, with the operations of a file system on them. A
path is followed part by part through existing directories to a location; each operation fails in
the way the file system reports.
-/

namespace PropExport

/-- Why an operation on files fails. -/
inductive FileError where
  | notFound
  | alreadyExists
  | notDirectory
  | isDirectory
  | nameTooLong
  | nulInName
  /-- The bytes of the file are not UTF-8. -/
  | notText
  deriving DecidableEq, Repr

/-- The wording of a file error. -/
def FileError.message : FileError → String
  | .notFound => "No such file or directory (os error 2)"
  | .alreadyExists => "File exists (os error 17)"
  | .notDirectory => "Not a directory (os error 20)"
  | .isDirectory => "Is a directory (os error 21)"
  | .nameTooLong => "File name too long (os error 36)"
  | .nulInName => "file name contained an unexpected NUL byte"
  | .notText => "stream did not contain valid UTF-8"

/-- A place in the file system: the names on the way from the starting directory, after as many `..`
as lead out of it. An absolute location starts with `/`. -/
abbrev Location := List String

/-- What stands at a location. -/
inductive Node where
  | file (content : String)
  /-- A file whose bytes are not UTF-8. It can be replaced and removed, but not read. -/
  | binary
  | directory
  deriving DecidableEq, Repr

/-- Files and directories by location. The starting directory, those around it and the root are
always there. -/
structure FileTree where
  nodes : List (Location × Node) := []
  deriving DecidableEq, Repr, Inhabited

namespace Location

/-- Whether a location is the starting directory or one around it. -/
def isOutward (loc : Location) : Bool :=
  loc.all (· == "..")

/-- The directory that holds a location. The root holds itself. -/
def parent (loc : Location) : Location :=
  if loc = ["/"] then loc
  else if isOutward loc then loc ++ [".."]
  else loc.dropLast

/-- The longest file name, in bytes. -/
def maxName : Nat := 255

/-- The longest path, in bytes. -/
def maxPath : Nat := 4095

end Location

namespace FileTree

/-- What stands at a location, if anything does. -/
def node? (tree : FileTree) (loc : Location) : Option Node :=
  if loc = ["/"] ∨ Location.isOutward loc then some .directory
  else tree.nodes.lookup loc

/-- Puts something at a location, in place of what was there. -/
def put (tree : FileTree) (loc : Location) (node : Node) : FileTree :=
  if tree.nodes.any (·.1 == loc) then
    { nodes := tree.nodes.map fun (l, old) => if l = loc then (l, node) else (l, old) }
  else { nodes := tree.nodes ++ [(loc, node)] }

/-- Checks that there is a directory at a location. -/
def requireDir (tree : FileTree) (loc : Location) : Except FileError Unit :=
  match tree.node? loc with
  | none => .error .notFound
  | some .directory => .ok ()
  | some _ => .error .notDirectory

/-- Follows one part of a path. It needs a directory to stand in. -/
def step (tree : FileTree) (loc : Location) (part : String) : Except FileError Location := do
  tree.requireDir loc
  if part = "" ∨ part = "." then return loc
  else if part = ".." then return loc.parent
  else if part.utf8ByteSize > Location.maxName then throw .nameTooLong
  else return loc ++ [part]

/-- Where following a path starts. -/
def startOf (path : String) : Except FileError Location :=
  if path = "" then .error .notFound
  else if path.toList.contains '\x00' then .error .nulInName
  else if path.utf8ByteSize > Location.maxPath then .error .nameTooLong
  else if Path.isAbsolute path then .ok ["/"]
  else .ok []

/-- The location that a path leads to. There need not be anything at it. -/
def resolve (tree : FileTree) (path : String) : Except FileError Location := do
  (Path.parts path).foldlM tree.step (← startOf path)

/-- The location that the last part of a path names, for operations that create or remove it. Gives
nothing if the last part is no name. -/
def resolveName (tree : FileTree) (path : String) : Except FileError (Option Location) := do
  let (others, last, _) := Path.split path
  let dir ← others.foldlM tree.step (← startOf path)
  let loc ← tree.step dir last
  return if last = "" ∨ last = "." ∨ last = ".." then none else some loc

/-- What a path leads to. -/
def stat (tree : FileTree) (path : String) : Except FileError Node := do
  match tree.node? (← tree.resolve path) with
  | some node => return node
  | none => throw .notFound

/-- Whether a path leads to something. -/
def pathExists (tree : FileTree) (path : String) : Bool :=
  (tree.stat path).toBool

/-- Whether a path leads to a directory. -/
def isDir (tree : FileTree) (path : String) : Bool :=
  match tree.stat path with
  | .ok .directory => true
  | _ => false

/-- The content of a file. -/
def read (tree : FileTree) (path : String) : Except FileError String := do
  match ← tree.stat path with
  | .file content => return content
  | .binary => throw .notText
  | .directory => throw .isDirectory

/-- Writes a file, new or in place of an old one. A slash at the end of the path asks for a
directory. -/
def write (tree : FileTree) (path content : String) : Except FileError FileTree := do
  match ← tree.resolveName path with
  | none => throw .isDirectory
  | some loc =>
    if (Path.split path).2.2 then throw .isDirectory
    match tree.node? loc with
    | some .directory => throw .isDirectory
    | _ => return tree.put loc (.file content)

/-- Removes a file. -/
def remove (tree : FileTree) (path : String) : Except FileError FileTree := do
  match ← tree.resolveName path with
  | none => throw .isDirectory
  | some loc =>
    match tree.node? loc with
    | none => throw .notFound
    | some .directory => throw .isDirectory
    | some _ =>
      if (Path.split path).2.2 then throw .notDirectory
      return { nodes := tree.nodes.filter (·.1 != loc) }

/-- Creates a directory in an existing one. -/
def createDir (tree : FileTree) (path : String) : Except FileError FileTree := do
  match ← tree.resolveName path with
  | none => throw .alreadyExists
  | some loc =>
    match tree.node? loc with
    | some _ => throw .alreadyExists
    | none => return tree.put loc .directory

/-- Creates a directory, unless it is there already. -/
def ensureDir (tree : FileTree) (path : String) : Except FileError FileTree :=
  match tree.createDir path with
  | .ok tree => .ok tree
  | .error e => if tree.isDir path then .ok tree else .error e

/-- Creates a directory and the directories it stands in as needed, and gives the tree also when
that fails half way. The empty path is always there. The first argument bounds the number of
parents; the length of the path is enough. -/
def ensureDirs : Nat → FileTree → String → Except FileError Unit × FileTree
  | 0, tree, _ => (.ok (), tree)
  | n + 1, tree, path =>
    if path = "" then (.ok (), tree)
    else
      match tree.ensureDir path with
      | .ok tree => (.ok (), tree)
      | .error .notFound =>
        match ensureDirs n tree ((Path.parent? path).getD "") with
        | (.error e, tree) => (.error e, tree)
        | (.ok (), tree) =>
          match tree.ensureDir path with
          | .ok tree => (.ok (), tree)
          | .error e => (.error e, tree)
      | .error e => (.error e, tree)

/-- Creates a directory with the directories it stands in. -/
def createDirs (tree : FileTree) (path : String) : Except FileError Unit × FileTree :=
  ensureDirs (path.length + 1) tree path

/-- Writes a file after creating the directories it stands in. -/
def plant (tree : FileTree) (path content : String) : Except FileError FileTree :=
  match tree.createDirs ((Path.parent? path).getD "") with
  | (.error e, _) => .error e
  | (.ok (), tree) => tree.write path content

/-- The files and directories below the starting directory, as paths; only a file
of text has a content, and a directory ends in a slash. -/
def listing (tree : FileTree) : List (String × Option String) :=
  tree.nodes.filterMap fun (loc, node) =>
    match loc with
    | [] => none
    | first :: _ =>
      if first = ".." ∨ first = "/" then none
      else
        let path := "/".intercalate loc
        match node with
        | .file content => some (path, some content)
        | .binary => some (path, none)
        | .directory => some (path ++ "/", none)

end FileTree

end PropExport
