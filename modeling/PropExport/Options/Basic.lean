import PropExport.Event

/-!
# Options

The settings of a run.
-/

namespace PropExport

/-- The settings of a run. -/
structure Options where
  /-- The directory that holds the logs of compiled units. -/
  buildDir : String := "build"
  /-- How much is logged. -/
  verbosity : Level := .info
  /-- Where exported lines are written, if not to standard output. -/
  outputPath : Option String := none
  /-- What follows the name of a unit and a point in the name of its log file. -/
  suffix : String := "dafny.json"
  /-- The keyword that introduces exported declarations. -/
  keyword : String := "axiom"
  deriving DecidableEq, Repr, Inhabited

end PropExport
