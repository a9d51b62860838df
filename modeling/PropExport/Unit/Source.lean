import PropExport.Attribute

/-!
# Unit sources

A unit is a list of commands with the names of the units it imports. The JSON form of a unit is the
format of the files that are compiled.
-/

namespace PropExport

/-- A command of a unit. -/
inductive Command where
  /-- Declares a name, with a body or without, and carries out attributes at it. -/
  | declare (name : String) (type : Expr) (value : Option Expr) (attributes : List Attribute)
  /-- Carries out attributes at a declared name. -/
  | annotate (decl : String) (attributes : List Attribute)
  /-- Removes an attribute from a declared name. -/
  | erase (decl attr : String)
  /-- Shows the lines exported so far. -/
  | dump
  deriving DecidableEq, Repr

/-- A unit as it is written. -/
structure UnitSource where
  name : String
  imports : List String := []
  commands : List Command := []
  deriving DecidableEq, Repr

namespace Command

/-- A command as JSON. -/
def toJson : Command → Json
  | .declare name type value attributes =>
    .obj ([("command", .str "declare"), ("name", .str name), ("type", type.toJson)] ++
      (value.toList.map fun e => ("value", e.toJson)) ++
      [("attributes", .arr (attributes.map Attribute.toJson))])
  | .annotate decl attributes =>
    .obj [("command", .str "attribute"), ("decl", .str decl),
      ("attributes", .arr (attributes.map Attribute.toJson))]
  | .erase decl attr =>
    .obj [("command", .str "erase_attribute"), ("decl", .str decl), ("attribute", .str attr)]
  | .dump => .obj [("command", .str "export_dafny")]

/-- Decodes an expression inside a command, which was collected before. -/
def exprOf (v : Json) : Decoded Expr :=
  Expr.ofJson false Json.maxDepth v

/-- The fields of a declaration read so far. -/
structure DeclareFields where
  name : Option String := none
  type : Option Expr := none
  value : Option (Option Expr) := none
  attributes : Option (List Attribute) := none

/-- Decodes the body of a declaration. Null stands for no body. -/
def bodyOf : Json → Decoded (Option Expr)
  | .null => .ok none
  | v => (exprOf v).map some

/-- Reads one field of a declaration. Other fields are ignored. -/
def DeclareFields.read (slots : DeclareFields) : String × Json → Decoded DeclareFields
  | ("name", v) => return { slots with name := ← Json.fill slots.name v.text }
  | ("type", v) => return { slots with type := ← Json.fill slots.type (exprOf v) }
  | ("value", v) => return { slots with value := ← Json.fill slots.value (bodyOf v) }
  | ("attributes", v) =>
    return { slots with attributes := ← Json.fill slots.attributes (v.list Attribute.ofJson) }
  | (_, v) => do v.ignored; return slots

/-- The fields of an annotation read so far. -/
structure AnnotateFields where
  decl : Option String := none
  attributes : Option (List Attribute) := none

/-- Reads one field of an annotation. Other fields are ignored. -/
def AnnotateFields.read (slots : AnnotateFields) : String × Json → Decoded AnnotateFields
  | ("decl", v) => return { slots with decl := ← Json.fill slots.decl v.text }
  | ("attributes", v) =>
    return { slots with attributes := ← Json.fill slots.attributes (v.list Attribute.ofJson) }
  | (_, v) => do v.ignored; return slots

/-- The fields of a removal read so far. -/
structure EraseFields where
  decl : Option String := none
  attr : Option String := none

/-- Reads one field of a removal. Other fields are ignored. -/
def EraseFields.read (slots : EraseFields) : String × Json → Decoded EraseFields
  | ("decl", v) => return { slots with decl := ← Json.fill slots.decl v.text }
  | ("attribute", v) => return { slots with attr := ← Json.fill slots.attr v.text }
  | (_, v) => do v.ignored; return slots

/-- Decodes a command that may open the given number of brackets. -/
def ofJson (budget : Nat) (v : Json) : Decoded Command := do
  v.collected budget
  match ← v.tagged "command" with
  | ("declare", record) =>
    let slots ← (← record.fields ["name", "type", "value", "attributes"]).foldlM
      DeclareFields.read {}
    return .declare (← Json.required slots.name) (← Json.required slots.type)
      (slots.value.getD none) (slots.attributes.getD [])
  | ("attribute", record) =>
    let slots ← (← record.fields ["decl", "attributes"]).foldlM AnnotateFields.read {}
    return .annotate (← Json.required slots.decl) (← Json.required slots.attributes)
  | ("erase_attribute", record) =>
    let slots ← (← record.fields ["decl", "attribute"]).foldlM EraseFields.read {}
    return .erase (← Json.required slots.decl) (← Json.required slots.attr)
  | ("export_dafny", record) =>
    (← record.fields []).forM fun (_, v) => v.ignored
    return .dump
  | _ => throw .malformed

end Command

namespace UnitSource

/-- A unit as JSON. -/
def toJson (source : UnitSource) : Json :=
  .obj [("name", .str source.name), ("imports", .arr (source.imports.map .str)),
    ("commands", .arr (source.commands.map Command.toJson))]

/-- The fields of a unit read so far. -/
structure Fields where
  name : Option String := none
  imports : Option (List String) := none
  commands : Option (List Command) := none

/-- Reads one field of a unit. There are no other fields. A command stands inside two brackets. -/
def Fields.read (slots : Fields) : String × Json → Decoded Fields
  | ("name", v) => return { slots with name := ← Json.fill slots.name v.text }
  | ("imports", v) => return { slots with imports := ← Json.fill slots.imports (v.list Json.text) }
  | ("commands", v) =>
    return { slots with
      commands := ← Json.fill slots.commands (v.list (Command.ofJson (Json.maxDepth - 2))) }
  | _ => throw .malformed

/-- Decodes a unit. The imports and the commands may be left out. -/
def ofJson (v : Json) : Decoded UnitSource := do
  let slots ← (← v.fields ["name", "imports", "commands"]).foldlM Fields.read {}
  return {
    name := ← Json.required slots.name
    imports := slots.imports.getD []
    commands := slots.commands.getD [] }

/-- Reads a unit from its JSON text. -/
def parse (text : String) : Decoded UnitSource :=
  Document.decode ofJson text

/-- The JSON text of a unit. -/
def print (source : UnitSource) : String :=
  source.toJson.compact

end UnitSource

end PropExport
