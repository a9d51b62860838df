import PropExport.Attribute

/-!
# Diagnostics

What a unit's author is told about commands and attributes that were refused, and how it is laid
out.
-/

namespace PropExport

/-- How serious a diagnostic is, least serious first. -/
inductive Severity where
  | help
  | note
  | warning
  | error
  | bug
  deriving DecidableEq, Repr

namespace Severity

/-- The name of a severity. -/
def name : Severity → String
  | .help => "help"
  | .note => "note"
  | .warning => "warning"
  | .error => "error"
  | .bug => "bug"

/-- The place of a severity in the order. -/
def rank : Severity → Nat
  | .help => 0
  | .note => 1
  | .warning => 2
  | .error => 3
  | .bug => 4

end Severity

/-- A refused command or attribute. -/
inductive Diagnostic where
  /-- A name was declared twice. -/
  | duplicate (unit decl : String)
  /-- An attribute failed at a declaration. -/
  | attribute (unit decl attr : String) (error : Attribute.Error)
  deriving DecidableEq, Repr

namespace Diagnostic

/-- How serious a diagnostic is. Whatever was refused is an error. -/
def severity : Diagnostic → Severity
  | .duplicate _ _ => .error
  | .attribute _ _ _ _ => .error

/-- How many of some diagnostics are errors or worse. -/
def errorCount (ds : List Diagnostic) : Nat :=
  ds.countP fun d => Severity.error.rank ≤ d.severity.rank

/-- The headline of a diagnostic. -/
def message : Diagnostic → String
  | .duplicate _ decl => "`" ++ decl ++ "` has already been declared"
  | .attribute _ _ attr error => "`" ++ attr ++ "` failed: " ++ error.message

/-- The remarks under the headline. -/
def notes : Diagnostic → List String
  | .duplicate unit _ => ["in unit `" ++ unit ++ "`"]
  | .attribute unit decl _ error =>
    ("in unit `" ++ unit ++ "`, declaration `" ++ decl ++ "`") ::
      match error with
      | .unsupported cause =>
        ["rejected sub-expression: " ++ cause.expr.display,
          "exportable statements use numerals, `Nat.succ`, `+`, aligned symbols, `=` and `∧`"]
      | .cannotBeRemoved _ => ["recorded Dafny mappings and exports cannot be retracted"]
      | _ => []

/-- A remark as it is laid out: the first line behind a mark, the others below it. -/
def renderNote (note : String) : String :=
  match Text.linesOf note with
  | [] => ""
  | first :: others => " = " ++ first ++ "\n" ++ Text.lines (others.map ("   " ++ ·))

/-- A diagnostic as it is laid out, ended by an empty line. -/
def render (d : Diagnostic) : String :=
  d.severity.name ++ ": " ++ d.message ++ "\n" ++ String.join (d.notes.map renderNote) ++ "\n"

/-- Diagnostics one after another. -/
def renderAll (ds : List Diagnostic) : String :=
  String.join (ds.map render)

end Diagnostic

end PropExport
