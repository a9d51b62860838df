import PropExport.Event
import PropExport.Ledger.Entry
import PropExport.SymbolTable
import PropExport.Text.Layout

/-!
# The ledger

What is known at one point of a compilation: the aligned symbols and the exported lines. A ledger is
rebuilt by replaying the logs of the imported units in order, so that later bindings win and every
line appears where it was recorded.
-/

namespace PropExport

/-- The aligned symbols and the exported lines, in the order in which they were recorded. -/
structure Ledger where
  symbols : SymbolTable := .empty
  exports : List String := []
  deriving Inhabited

namespace Ledger

/-- The target of a declaration. -/
def find? (ledger : Ledger) (decl : String) : Option String :=
  ledger.symbols.find? decl

/-- Binds a declaration to a target. -/
def bind (ledger : Ledger) (decl target : String) : Ledger :=
  { ledger with symbols := ledger.symbols.insert decl target }

/-- Adds a line to the exported ones. -/
def publish (ledger : Ledger) (line : String) : Ledger :=
  { ledger with exports := ledger.exports ++ [line] }

/-- Carries out an entry. -/
def apply (ledger : Ledger) : Entry → Ledger
  | .bind decl target => ledger.bind decl target
  | .publish line => ledger.publish line

/-- Carries out entries in order. -/
def replay (ledger : Ledger) (entries : List Entry) : Ledger :=
  entries.foldl apply ledger

/-- Carries out the entries of some units in order. -/
def replayUnits (ledger : Ledger) (units : List UnitLog) : Ledger :=
  units.foldl (fun ledger log => ledger.replay log.entries) ledger

/-- The ledger at the start of a unit that imports some units. -/
def merge (units : List UnitLog) : Ledger :=
  replayUnits {} units

/-- The exported lines as a text. -/
def dump (ledger : Ledger) : String :=
  Text.lines ledger.exports

/-- Whether two ledgers hold the same bindings, in whatever order, and the same lines in the same
order. -/
def agrees (a b : Ledger) : Bool :=
  a.symbols.agrees b.symbols && a.exports == b.exports

/-- What the log says when an entry is carried out: a binding that replaces another is worth a
warning. -/
def applyEvents (ledger : Ledger) : Entry → List Event
  | .bind decl target =>
    match ledger.find? decl with
    | some previous => [.rebinding decl previous target]
    | none => []
  | .publish _ => []

/-- What the log says when entries are carried out in order. -/
def replayEvents (ledger : Ledger) : List Entry → List Event
  | [] => []
  | e :: es => ledger.applyEvents e ++ (ledger.apply e).replayEvents es

/-- What the log says when units are replayed in order. -/
def replayUnitsEvents (ledger : Ledger) : List UnitLog → List Event
  | [] => []
  | log :: logs =>
    .replaying log.entries.length log.unit :: ledger.replayEvents log.entries ++
      (ledger.replay log.entries).replayUnitsEvents logs

/-- What the log says when units are merged. -/
def mergeEvents (units : List UnitLog) : List Event :=
  replayUnitsEvents {} units

end Ledger

end PropExport
