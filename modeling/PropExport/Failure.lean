import PropExport.Files.Tree
import PropExport.Json.Decode

/-!
# Failures

Why an operation on compiled units cannot be carried out. A failure is told from the outside in:
what was being done, then what went wrong there.
-/

namespace PropExport

/-- What went wrong at the bottom of a failure, outside this program's own rules. -/
inductive Cause where
  /-- The file system refused an operation. -/
  | file (error : FileError)
  /-- A text is not the JSON that was expected. -/
  | json (error : ReadError)
  /-- A text is not an options file. -/
  | options
  deriving DecidableEq, Repr

/-- The wording of a cause. -/
def Cause.message : Cause → String
  | .file error => error.message
  | .json error => error.message
  | .options => "malformed options"

/-- Why an operation cannot be carried out. -/
inductive Failure where
  | invalidUnitName (unit : String)
  | notCompiled (unit path : String)
  | unreadableLog (path : String) (error : FileError)
  | malformedLog (path : String) (error : ReadError)
  | foreignLog (path found expected : String)
  | importCycle (chain : List String)
  | importsItself (unit : String)
  | createDir (path : String) (error : FileError)
  | write (path : String) (error : FileError)
  | unreadableUnit (path : String) (error : FileError)
  | malformedUnit (error : ReadError)
  | malformedUnitFile (path : String) (error : ReadError)
  | unreadableOptions (path : String) (error : FileError)
  | malformedOptions
  | malformedOptionsFile (path : String)
  deriving DecidableEq, Repr

namespace Failure

/-- What was being done, from the outside in. -/
def contexts : Failure → List String
  | .invalidUnitName unit =>
    ["invalid unit name `" ++ unit ++ "`: unit names cannot contain path separators"]
  | .notCompiled unit path => ["unit `" ++ unit ++ "` has not been compiled (no " ++ path ++ ")"]
  | .unreadableLog path _ => ["failed to read " ++ path]
  | .malformedLog path _ => ["malformed entry log " ++ path]
  | .foreignLog path found expected =>
    [path ++ " holds unit `" ++ found ++ "`, expected `" ++ expected ++ "`"]
  | .importCycle chain => ["import cycle: " ++ " -> ".intercalate chain]
  | .importsItself unit => ["unit `" ++ unit ++ "` imports itself"]
  | .createDir path _ => ["failed to create " ++ path]
  | .write path _ => ["failed to write " ++ path]
  | .unreadableUnit path _ => ["failed to read unit " ++ path]
  | .malformedUnit _ => ["malformed unit"]
  | .malformedUnitFile path _ => ["in " ++ path, "malformed unit"]
  | .unreadableOptions path _ => ["failed to read options from " ++ path]
  | .malformedOptions => ["invalid options"]
  | .malformedOptionsFile path => ["failed to parse options in " ++ path, "invalid options"]

/-- What went wrong at the bottom. -/
def cause? : Failure → Option Cause
  | .unreadableLog _ error | .createDir _ error | .write _ error | .unreadableUnit _ error
  | .unreadableOptions _ error => some (.file error)
  | .malformedLog _ error | .malformedUnit error | .malformedUnitFile _ error =>
    some (.json error)
  | .malformedOptions | .malformedOptionsFile _ => some .options
  | _ => none

/-- The whole failure from the outside in. -/
def chain (failure : Failure) : List String :=
  failure.contexts ++ failure.cause?.toList.map Cause.message

/-- A cause under the headline of a report. Its further lines are indented like the first; a number
stands in front if there are several causes. -/
def renderCause (number : Option Nat) (cause : String) : String :=
  let (first, further) :=
    match number with
    | some n =>
      let digits := toString n
      ("".pushn ' ' (5 - digits.length) ++ digits ++ ": ", "       ")
    | none => ("    ", "    ")
  "\n" ++ first ++ ("\n" ++ further).intercalate (cause.splitOn "\n")

/-- The report of a failure: the outermost message, then the causes. -/
def report (failure : Failure) : String :=
  match failure.chain with
  | [] => ""
  | [message] => message
  | [message, cause] => message ++ "\n\nCaused by:" ++ renderCause none cause
  | message :: causes =>
    message ++ "\n\nCaused by:" ++
      String.join (causes.zipIdx.map fun (cause, n) => renderCause (some n) cause)

end Failure

end PropExport
