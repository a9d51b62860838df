import PropExport.CommandLine.Run

/-!
# The program

Brings the files that a run may touch into a file tree, runs on it, and carries its changes out.
-/

namespace PropExport.Main

/-- The path of a location. -/
def pathOf : Location → String
  | "/" :: names => "/" ++ "/".intercalate names
  | names => "/".intercalate names

/-- Adds what stands at a location to a file tree: a file with its content, a directory by
itself. -/
def observeAt (files : FileTree) (loc : Location) : IO FileTree := do
  match files.node? loc with
  | some _ => return files
  | none =>
    try
      let path ← IO.FS.realPath (pathOf loc)
      if ← path.isDir then return files.put loc .directory
      else if ← path.pathExists then
        match String.fromUTF8? (← IO.FS.readBinFile path) with
        | some content => return files.put loc (.file content)
        | none => return files.put loc .binary
      else return files
    catch _ => return files

/-- Adds what stands at a path, and at every directory on the way to it. -/
def observe (files : FileTree) (path : String) : IO FileTree := do
  let mut files := files
  let mut loc : Location := if Path.isAbsolute path then ["/"] else []
  for part in Path.parts path do
    match files.step loc part with
    | .error _ => return files
    | .ok next =>
      loc := next
      files ← observeAt files loc
  return files

/-- Adds the files that stand directly in a directory. -/
def observeEntries (files : FileTree) (path : String) : IO FileTree := do
  let mut files := files
  if files.isDir path then
    for entry in ← (← IO.FS.realPath path).readDir do
      files ← observe files (Path.join path entry.fileName)
  return files

/-- Carries out the changes from one file tree to another. -/
def commit (old new : FileTree) : IO Unit := do
  for (loc, node) in new.nodes do
    unless old.node? loc == some node do
      match node with
      | .directory => IO.FS.createDirAll (pathOf loc)
      | .file content => IO.FS.writeFile (pathOf loc) content
      -- no operation makes a file that is not text
      | .binary => pure ()

/-- Runs the program with arguments on the files there are. -/
def run (args : List String) : IO UInt32 := do
  let mut files : FileTree := {}
  for path in CommandLine.paths files args do
    files ← observe files path
  for path in CommandLine.paths files args do
    files ← observe files path
    files ← observeEntries files path
  let result := CommandLine.run files args
  commit files result.files
  IO.eprint result.notices
  IO.print result.output
  return result.exitCode.toUInt32

end PropExport.Main

/-- The entry point of the program. -/
def main (args : List String) : IO UInt32 :=
  PropExport.Main.run args
