import PropExport.Failure
import PropExport.Json.Printer
import PropExport.Ledger.Basic

/-!
# Archives

An archive keeps the log of every compiled unit in a file of its own in the build directory, and
remembers the logs it has seen. Failing operations keep what was remembered and noted before they
failed.
-/

namespace PropExport

/-- The compiled units below a build directory. -/
structure Archive where
  buildDir : String
  suffix : String
  files : FileTree
  /-- The logs read or written so far, latest first. -/
  known : List (String × UnitLog) := []
  events : List Event := []

/-- An operation on an archive that may fail. -/
abbrev ArchiveM := ExceptT Failure (StateM Archive)

namespace Archive

/-- Notes events. -/
def note (events : List Event) : ArchiveM Unit :=
  modify fun a => { a with events := a.events ++ events }

/-- Remembers the log of a unit. -/
def remember (log : UnitLog) : ArchiveM Unit :=
  modify fun a => { a with known := (log.unit, log) :: a.known }

/-- Whether a unit may have a name: it becomes a file name, so it is not empty and holds no
separator. -/
def isUnitName (unit : String) : Bool :=
  unit != "" && unit.toList.all fun c => c != '/' && c != '\\'

/-- The path of a unit's log. -/
def entryPath (unit : String) : ArchiveM String := do
  let a ← get
  if isUnitName unit then return Path.join a.buildDir (unit ++ "." ++ a.suffix)
  else throw (.invalidUnitName unit)

/-- Reads the log of a unit from its file. -/
def readLog (unit : String) : ArchiveM UnitLog := do
  let path ← entryPath unit
  let a ← get
  unless a.files.pathExists path do throw (.notCompiled unit path)
  match a.files.read path with
  | .error e => throw (.unreadableLog path e)
  | .ok content =>
    match UnitLog.parse content with
    | .error e => throw (.malformedLog path e)
    | .ok log => if log.unit = unit then return log else throw (.foreignLog path log.unit unit)

/-- The log of a unit, read from its file on first use. -/
def load (unit : String) : ArchiveM UnitLog := do
  match (← get).known.lookup unit with
  | some log => return log
  | none =>
    let log ← readLog unit
    note [.loaded unit log.entries.length]
    remember log
    return log

/-- Creates a directory with the directories it stands in. -/
def createDirs (path : String) : ArchiveM Unit := do
  let (outcome, files) := (← get).files.createDirs path
  modify fun a => { a with files }
  match outcome with
  | .ok () => return ()
  | .error e => throw (.createDir path e)

/-- Writes a file. -/
def write (path content : String) : ArchiveM Unit := do
  match (← get).files.write path content with
  | .ok files => modify fun a => { a with files }
  | .error e => throw (.write path e)

/-- Writes the log of a unit to its file and remembers it. Gives the path of the file. -/
def store (log : UnitLog) : ArchiveM String := do
  let path ← entryPath log.unit
  createDirs (← get).buildDir
  write path log.toJson.pretty
  note [.stored log.unit log.entries.length path]
  remember log
  return path

/-- Visits a unit at the end of a trail of units that import one another, given the units that are
finished: what it imports is finished first, then the unit itself. The first argument bounds the
length of the trail; it has to exceed the number of logs there are. -/
def visit : Nat → List String → List String → String → ArchiveM (List String)
  | 0, trail, _, unit => throw (.importCycle (trail ++ [unit]))
  | n + 1, trail, finished, unit => do
    if finished.contains unit then return finished
    if trail.contains unit then throw (.importCycle (trail ++ [unit]))
    let log ← load unit
    let finished ← log.imports.foldlM (visit n (trail ++ [unit])) finished
    return finished ++ [unit]

/-- The given units with all that they import, directly or through others, each once and after what
it imports. -/
def closure (imports : List String) : ArchiveM (List String) := do
  let a ← get
  imports.foldlM (visit (a.known.length + a.files.nodes.length + 1) []) []

/-- The remembered logs of some units. -/
def logs (units : List String) : ArchiveM (List UnitLog) := do
  let a ← get
  return units.filterMap fun unit => a.known.lookup unit

/-- The ledger at the end of a unit. -/
def ledgerOf (unit : String) : ArchiveM Ledger := do
  let imported ← logs (← closure [unit])
  note (Ledger.mergeEvents imported)
  return Ledger.merge imported

/-- Writes the exported lines of a ledger to a file. -/
def writeDump (ledger : Ledger) (path : String) : ArchiveM Unit := do
  match Path.parent? path with
  | some dir => unless dir = "" do createDirs dir
  | none => pure ()
  write path ledger.dump
  note [.wrote ledger.exports.length path]

end Archive

end PropExport
