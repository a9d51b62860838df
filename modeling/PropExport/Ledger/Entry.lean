import PropExport.Json.Decode

/-!
# Entries and unit logs

What a compiled unit leaves behind for the units that import it: the changes it made, in order. The
JSON form of a unit log is the format of the files in the build directory.
-/

namespace PropExport

/-- One recorded change. -/
inductive Entry where
  /-- A declaration is known to the target language under a name. -/
  | bind (decl target : String)
  /-- A line is added to the exported declarations. -/
  | publish (line : String)
  deriving DecidableEq, Repr

/-- The changes that a unit made, with the units it imports directly. -/
structure UnitLog where
  unit : String
  imports : List String := []
  entries : List Entry := []
  deriving DecidableEq, Repr, Inhabited

namespace Entry

/-- An entry as JSON. -/
def toJson : Entry → Json
  | .bind decl target =>
    .obj [("kind", .str "add_decl"), ("decl", .str decl), ("target", .str target)]
  | .publish line => .obj [("kind", .str "to_export"), ("declaration", .str line)]

/-- The fields of a binding read so far. -/
structure BindFields where
  decl : Option String := none
  target : Option String := none

/-- Reads one field of a binding. Other fields are ignored. -/
def BindFields.read (slots : BindFields) : String × Json → Decoded BindFields
  | ("decl", v) => return { slots with decl := ← Json.fill slots.decl v.text }
  | ("target", v) => return { slots with target := ← Json.fill slots.target v.text }
  | (_, v) => do v.ignored; return slots

/-- Reads the line of a published declaration. Other fields are ignored. -/
def readLine (slot : Option String) : String × Json → Decoded (Option String)
  | ("declaration", v) => Json.fill slot v.text
  | (_, v) => do v.ignored; return slot

/-- Decodes an entry that may open the given number of brackets. -/
def ofJson (budget : Nat) (v : Json) : Decoded Entry := do
  v.collected budget
  match ← v.tagged "kind" with
  | ("add_decl", record) =>
    let slots ← (← record.fields ["decl", "target"]).foldlM BindFields.read {}
    return .bind (← Json.required slots.decl) (← Json.required slots.target)
  | ("to_export", record) =>
    let line ← (← record.fields ["declaration"]).foldlM readLine none
    return .publish (← Json.required line)
  | _ => throw .malformed

end Entry

namespace UnitLog

/-- A unit log as JSON. -/
def toJson (log : UnitLog) : Json :=
  .obj [("unit", .str log.unit), ("imports", .arr (log.imports.map .str)),
    ("entries", .arr (log.entries.map Entry.toJson))]

/-- The fields of a unit log read so far. -/
structure Fields where
  unit : Option String := none
  imports : Option (List String) := none
  entries : Option (List Entry) := none

/-- Reads one field of a unit log. Other fields are ignored. An entry stands inside two brackets. -/
def Fields.read (slots : Fields) : String × Json → Decoded Fields
  | ("unit", v) => return { slots with unit := ← Json.fill slots.unit v.text }
  | ("imports", v) => return { slots with imports := ← Json.fill slots.imports (v.list Json.text) }
  | ("entries", v) =>
    return { slots with
      entries := ← Json.fill slots.entries (v.list (Entry.ofJson (Json.maxDepth - 2))) }
  | (_, v) => do v.ignored; return slots

/-- Decodes a unit log. -/
def ofJson (v : Json) : Decoded UnitLog := do
  let slots ← (← v.fields ["unit", "imports", "entries"]).foldlM Fields.read {}
  return {
    unit := ← Json.required slots.unit
    imports := ← Json.required slots.imports
    entries := ← Json.required slots.entries }

/-- Reads a unit log from its JSON text. -/
def parse (text : String) : Decoded UnitLog :=
  Document.decode ofJson text

end UnitLog

end PropExport
