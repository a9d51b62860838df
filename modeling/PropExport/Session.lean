import PropExport.Diagnostic
import PropExport.Unit.Source

/-!
# Sessions

Running the commands of a unit in order. A command that is refused leaves nothing behind but
diagnostics, and an attribute that fails does not take its declaration back.
-/

namespace PropExport

/-- Where a declaration stands after its attributes were carried out. -/
inductive Status where
  /-- There were no attributes. -/
  | declared
  /-- All attributes succeeded. -/
  | accepted
  /-- Some attribute failed. -/
  | rejected
  deriving DecidableEq, Repr

namespace Status

/-- The name of a status. -/
def name : Status → String
  | .declared => "declared"
  | .accepted => "translated"
  | .rejected => "rejected"

/-- The status after one more attribute succeeded. -/
def afterSuccess : Status → Status
  | .declared => .accepted
  | status => status

end Status

/-- A unit whose commands are being run. -/
structure Session where
  /-- The keyword that introduces exported declarations. -/
  keyword : String
  draft : Draft
  declarations : Declarations := {}
  statuses : List (String × Status) := []
  diagnostics : List Diagnostic := []
  dumped : List String := []

namespace Session

/-- Notes an event. -/
def note (s : Session) (event : Event) : Session :=
  { s with draft := s.draft.note event }

/-- Adds a diagnostic. -/
def report (s : Session) (d : Diagnostic) : Session :=
  { s with diagnostics := s.diagnostics ++ [d] }

/-- Adds a diagnostic on an attribute. -/
def refuse (s : Session) (decl attr : String) (error : Attribute.Error) : Session :=
  s.report (.attribute s.draft.unit decl attr error)

/-- Carries out attributes at a declaration, starting from a status, and records the final
status. -/
def fire (s : Session) (decl : String) (status : Status) : List Attribute → Session
  | [] => { s with statuses := s.statuses ++ [(decl, status)] }
  | attr :: attrs =>
    match Draft.applyAttribute s.keyword s.declarations decl attr s.draft with
    | (.ok kind, draft) =>
      ({ s with draft }.note (.applied kind.name decl)).fire decl status.afterSuccess attrs
    | (.error error, draft) =>
      ({ s with draft }.refuse decl attr.name error).fire decl .rejected attrs

/-- Runs a command. -/
def run (s : Session) : Command → Session
  | .declare name type value attributes =>
    let s := s.note (.declaring name type value.isSome)
    match s.declarations.add? name type with
    | none => s.report (.duplicate s.draft.unit name)
    | some declarations => { s with declarations }.fire name .declared attributes
  | .annotate decl attributes =>
    match s.declarations.find? decl with
    | none => attributes.foldl (fun s attr => s.refuse decl attr.name (.unknownDeclaration decl)) s
    | some _ => s.fire decl .declared attributes
  | .erase decl attr =>
    match s.declarations.find? decl with
    | none => s.refuse decl attr (.unknownDeclaration decl)
    | some _ => s.refuse decl attr (Attribute.removal attr)
  | .dump =>
    let lines := s.draft.ledger.exports
    { s.note (.dumping lines.length) with dumped := s.dumped ++ lines }

/-- Runs commands in order. -/
def runAll (s : Session) (commands : List Command) : Session :=
  commands.foldl run s

/-- Ends a session. -/
def finish (s : Session) : Session :=
  s.note s.draft.freezeEvent

/-- What the unit leaves behind. -/
def log (s : Session) : UnitLog :=
  s.draft.freeze

end Session

/-- The last status that was recorded for a declaration. -/
def Status.last? (statuses : List (String × Status)) (decl : String) : Option Status :=
  statuses.reverse.lookup decl

end PropExport
