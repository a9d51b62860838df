import PropExport.Archive.Compile
import PropExport.CommandLine.Arguments

/-!
# Runs

What a run of the program prints and leaves in the file tree, and the code with which it ends: zero
if all went well, one if something failed or a unit had errors, two if the arguments were wrong.
-/

namespace PropExport.CommandLine

/-- What a run comes to. -/
structure Result where
  exitCode : Nat
  output : String
  /-- Diagnostics and log lines, for the user's eyes only. -/
  notices : String := ""
  files : FileTree

/-- The name and version of the program. -/
def versionText : String := "dafny-export 0.1.0\n"

/-- How the program is used. -/
def helpText : String :=
  Text.lines [
    "Translates propositions annotated with @[export_dafny] into Dafny declarations",
    "",
    "Usage: dafny-export [OPTIONS] <COMMAND>",
    "",
    "Commands:",
    "  compile  Compile unit files in order; later units may import earlier ones",
    "  dump     Print the export log of a compiled unit and everything it imports",
    "  help     Print this message or the help of the given subcommand(s)",
    "",
    "Options:",
    "  -b, --build-dir <BUILD_DIR>  Directory holding the entry logs of compiled units",
    "  -c, --config <CONFIG>        Options file (toml)",
    "  -v, --verbose                Log everything",
    "  -h, --help                   Print help",
    "  -V, --version                Print version"]

/-- The options of a run: those of the options file, overridden by the arguments. -/
def optionsOf (files : FileTree) (settings : Settings) (command : Command) :
    Except Failure Options := do
  let base ←
    match settings.config with
    | some path => Options.ofFile files path
    | none => pure {}
  return { base with
    buildDir := settings.buildDir.getD base.buildDir
    verbosity := if settings.verbose then .trace else base.verbosity
    outputPath :=
      match command with
      | .dump _ (some path) => some path
      | _ => base.outputPath }

/-- What has been printed so far, and whether every unit was free of errors. -/
structure Progress where
  output : String := ""
  notices : String := ""
  isClean : Bool := true

/-- The operations of a run: what was printed stays printed when a later step fails. -/
abbrev RunM := ExceptT Failure (StateM (Progress × Archive))

/-- Carries out an operation on the archive. -/
def onArchive {α : Type} (action : ArchiveM α) : RunM α := fun (progress, archive) =>
  let (outcome, archive) := action archive
  (outcome, progress, archive)

/-- Prints a text. -/
def print (text : String) : RunM Unit :=
  modify fun (progress, archive) =>
    ({ progress with output := progress.output ++ text }, archive)

/-- Compiles a unit file and prints what its dump commands show. -/
def compileFile (keyword : String) (path : String) : RunM Unit := do
  let source ← onArchive (Archive.readUnit path)
  let report ← onArchive (Archive.compile keyword source)
  modify fun (progress, archive) =>
    ({ progress with
        notices := progress.notices ++ Diagnostic.renderAll report.diagnostics
        isClean := progress.isClean && !report.hasErrors }, archive)
  print (Text.lines report.dumped)

/-- Carries out a command. -/
def execute (options : Options) : Command → RunM Unit
  | .compile units => units.forM (compileFile options.keyword)
  | .dump unit _ => do
    let ledger ← onArchive (Archive.ledgerOf unit)
    match options.outputPath with
    | some path => onArchive (Archive.writeDump ledger path)
    | none => print ledger.dump

/-- The log lines that a verbosity shows. -/
def logLines (verbosity : Level) (events : List Event) : List String :=
  let shown := Level.all.takeWhile (· != verbosity) ++ [verbosity]
  (events.filter fun e => shown.contains e.level).map Event.line

/-- Runs the program with arguments on a file tree. -/
def run (files : FileTree) (args : List String) : Result :=
  match parse args with
  | none => { exitCode := 2, output := "", notices := helpText, files }
  | some .help => { exitCode := 0, output := helpText, files }
  | some .version => { exitCode := 0, output := versionText, files }
  | some (.run settings command) =>
    match optionsOf files settings command with
    | .error failure => { exitCode := 1, output := failure.report ++ "\n", files }
    | .ok options =>
      let (outcome, progress, archive) := execute options command ({}, options.archive files)
      let notices :=
        Text.lines (logLines options.verbosity archive.events) ++ progress.notices
      match outcome with
      | .error failure =>
        { exitCode := 1, output := progress.output ++ failure.report ++ "\n", notices,
          files := archive.files }
      | .ok () =>
        if progress.isClean then
          { exitCode := 0, output := progress.output, notices, files := archive.files }
        else
          { exitCode := 1, output := progress.output ++ "exiting with translation errors\n",
            notices, files := archive.files }

/-- The paths that a run may look at or write to. The options file decides on some of them, so it
has to be in the tree for the others to be known. -/
def paths (files : FileTree) (args : List String) : List String :=
  match parse args with
  | some (.run settings command) =>
    settings.config.toList ++
      match optionsOf files settings command with
      | .error _ => []
      | .ok options =>
        options.buildDir :: options.outputPath.toList ++
          match command with
          | .compile units => units
          | .dump .. => []
  | _ => []

end PropExport.CommandLine
