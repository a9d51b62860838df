import PropExport.Archive.Basic
import PropExport.Options.File
import PropExport.Session

/-!
# Compiling units

Running the commands of a unit against the units it imports, and adding its log to the archive.
-/

namespace PropExport

/-- What compiling a unit comes to. -/
structure Report where
  unit : String
  /-- Where the log of the unit was written. -/
  entryPath : String
  /-- How many entries the unit recorded. -/
  entryCount : Nat
  statuses : List (String × Status)
  diagnostics : List Diagnostic
  /-- The lines that dump commands showed. -/
  dumped : List String

/-- Whether some command or attribute was refused. -/
def Report.hasErrors (report : Report) : Bool :=
  0 < Diagnostic.errorCount report.diagnostics

/-- An archive in the build directory that the options name. -/
def Options.archive (options : Options) (files : FileTree) : Archive where
  buildDir := options.buildDir
  suffix := options.suffix
  files

/-- Reads an options file. -/
def Options.ofFile (files : FileTree) (path : String) : Except Failure Options :=
  match files.read path with
  | .error e => .error (.unreadableOptions path e)
  | .ok content =>
    match Options.parse content with
    | none => .error (.malformedOptionsFile path)
    | some options => .ok options

namespace Archive

/-- Reads a unit from a file. -/
def readUnit (path : String) : ArchiveM UnitSource := do
  match (← get).files.read path with
  | .error e => throw (.unreadableUnit path e)
  | .ok content =>
    match UnitSource.parse content with
    | .error e => throw (.malformedUnitFile path e)
    | .ok source => return source

/-- The session of a unit before its first command, given the logs of all it imports. -/
def opening (keyword : String) (source : UnitSource) (imported : List UnitLog) : Session :=
  let draft := Draft.start source.name source.imports imported
  let event := Event.compiling source.name source.commands.length imported.length
    draft.ledger.symbols.size
  { keyword, draft := draft.note event }

/-- The session of a unit after its last command. -/
def session (keyword : String) (source : UnitSource) (imported : List UnitLog) : Session :=
  (opening keyword source imported).runAll source.commands

/-- Compiles a unit against the units it imports and adds its log to the archive. A unit
cannot import itself, not even through others. -/
def compile (keyword : String) (source : UnitSource) : ArchiveM Report := do
  discard (entryPath source.name)
  let units ← closure source.imports
  if units.contains source.name then throw (.importsItself source.name)
  let s := (session keyword source (← logs units)).finish
  note s.draft.events
  let path ← store s.log
  return {
    unit := source.name
    entryPath := path
    entryCount := s.log.entries.length
    statuses := s.statuses
    diagnostics := s.diagnostics
    dumped := s.dumped }

end Archive

end PropExport
