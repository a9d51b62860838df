import PropExport.Ledger.Basic

/-!
# Units under construction

While a unit is compiled its changes are recorded and take effect in one step, so the ledger of a
draft is always that of its imports with its own entries replayed.
-/

namespace PropExport

/-- A unit that is being compiled, and the events of its compilation so far. -/
structure Draft where
  unit : String
  imports : List String
  ledger : Ledger
  entries : List Entry := []
  events : List Event := []
  deriving Inhabited

namespace Draft

/-- Starts a unit. The imported units are given with all they import, dependencies first. -/
def start (unit : String) (imports : List String) (imported : List UnitLog) : Draft where
  unit
  imports
  ledger := Ledger.merge imported
  events := Ledger.mergeEvents imported

/-- Notes an event. -/
def note (draft : Draft) (event : Event) : Draft :=
  { draft with events := draft.events ++ [event] }

/-- Records a change and carries it out. -/
def record (draft : Draft) (entry : Entry) : Draft :=
  { draft with
    ledger := draft.ledger.apply entry
    entries := draft.entries ++ [entry]
    events := draft.events ++ draft.ledger.applyEvents entry }

/-- What a finished unit leaves behind. -/
def freeze (draft : Draft) : UnitLog where
  unit := draft.unit
  imports := draft.imports
  entries := draft.entries

/-- The event of finishing a unit. -/
def freezeEvent (draft : Draft) : Event :=
  .freezing draft.unit draft.entries.length

end Draft

end PropExport
