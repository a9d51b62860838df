import PropExport.Declarations
import PropExport.Draft
import PropExport.Expr.Json
import PropExport.Formula.OfExpr

/-!
# Attributes

The two attributes that connect a declaration with the target language. Aligning binds the
declaration to a name that exists there; exporting adds the statement of the declaration to the
exported lines and binds the declaration to the name it is exported under. All that can go wrong is
looked at before anything is written.
-/

namespace PropExport

/-- An argument of an attribute. -/
inductive Argument where
  | str (s : String)
  | ident (name : String)
  | num (n : UInt64)
  deriving DecidableEq, Repr

/-- An attribute as it is written at a declaration. -/
structure Attribute where
  name : String
  args : List Argument := []
  deriving DecidableEq, Repr

namespace Attribute

/-- The known attributes. -/
inductive Kind where
  | align
  | publish
  deriving DecidableEq, Repr

namespace Kind

/-- The name of an attribute. -/
def name : Kind → String
  | .align => "align_dafny"
  | .publish => "export_dafny"

/-- The attribute with a name. -/
def ofName? (name : String) : Option Kind :=
  if name = Kind.align.name then some .align
  else if name = Kind.publish.name then some .publish
  else none

end Kind

/-- Why an attribute fails. -/
inductive Error where
  | invalidParameter (attr : String)
  | notProposition (decl : String)
  | cannotBeRemoved (kind : Kind)
  | unknownAttribute (attr : String)
  | unknownDeclaration (decl : String)
  /-- The statement has no counterpart in the target language. -/
  | unsupported (cause : Unsupported)
  deriving DecidableEq, Repr

/-- The wording of a failure. -/
def Error.message : Error → String
  | .invalidParameter attr =>
    "invalid parameter for attribute `" ++ attr ++ "`: expected exactly one string literal"
  | .notProposition decl => "cannot export `" ++ decl ++ "`: only propositions are supported"
  | .cannotBeRemoved kind => "attribute `" ++ kind.name ++ "` cannot be removed"
  | .unknownAttribute attr => "unknown attribute `" ++ attr ++ "`"
  | .unknownDeclaration decl => "unknown declaration `" ++ decl ++ "`"
  | .unsupported cause => cause.message

/-- The kind of an attribute. -/
def kind (attr : Attribute) : Except Error Kind :=
  match Kind.ofName? attr.name with
  | some kind => .ok kind
  | none => .error (.unknownAttribute attr.name)

/-- The name of the target, which is the only argument of either attribute. -/
def target (attr : Attribute) : Except Error String :=
  match attr.args with
  | [.str s] => .ok s
  | _ => .error (.invalidParameter attr.name)

/-- What comes of removing an attribute from a declaration. What was recorded cannot be taken back,
so removal always fails. -/
def removal (name : String) : Error :=
  match Kind.ofName? name with
  | some kind => .cannotBeRemoved kind
  | none => .unknownAttribute name

end Attribute

/-- An operation on a draft that may fail. What it has done to the draft before it fails stays
done. -/
abbrev DraftM := ExceptT Attribute.Error (StateM Draft)

namespace Draft

/-- Aligns a declaration with a name of the target language. This cannot fail. -/
def align (decl target : String) : StateM Draft Unit := do
  modify (·.note (.aligning decl target))
  modify (·.record (.bind decl target))

/-- The formula that a declaration states with the symbols of the moment. -/
def statement (decls : Declarations) (decl : String) : DraftM Formula := do
  match decls.find? decl with
  | none => throw (.unknownDeclaration decl)
  | some type =>
    unless decls.isProposition type do throw (.notProposition decl)
    match Formula.ofExpr (← get).ledger.symbols type with
    | .ok formula => return formula
    | .error cause => throw (.unsupported cause)

/-- Exports the statement of a declaration under a name, introduced by a keyword. -/
def publish (keyword : String) (decls : Declarations) (decl target : String) : DraftM Unit := do
  let formula ← statement decls decl
  let line := formula.declaration keyword target
  modify (·.note (.exporting decl formula.atomCount line))
  modify (·.record (.publish line))
  modify (·.record (.bind decl target))

/-- Does what a kind of attribute stands for. -/
def handle (keyword : String) (decls : Declarations) (decl target : String) :
    Attribute.Kind → DraftM Unit
  | .align => align decl target
  | .publish => publish keyword decls decl target

/-- Carries out an attribute at a declaration. -/
def applyAttribute (keyword : String) (decls : Declarations) (decl : String) (attr : Attribute) :
    DraftM Attribute.Kind := do
  let kind ← MonadExcept.ofExcept attr.kind
  let target ← MonadExcept.ofExcept attr.target
  handle keyword decls decl target kind
  return kind

end Draft

namespace Argument

/-- An argument as JSON. -/
def toJson : Argument → Json
  | .str s => .obj [("str", .str s)]
  | .ident name => .obj [("ident", .str name)]
  | .num n => .obj [("num", .nat n.toNat)]

/-- Decodes an argument. -/
def ofJson : Json → Decoded Argument :=
  Json.variant false fun
    | "str", v => v.text.map .str
    | "ident", v => v.text.map .ident
    | "num", v => v.word64.map .num
    | _, _ => .error .malformed

end Argument

namespace Attribute

/-- An attribute as JSON. -/
def toJson (attr : Attribute) : Json :=
  .obj [("name", .str attr.name), ("args", .arr (attr.args.map Argument.toJson))]

/-- The fields of an attribute read so far. -/
structure Fields where
  name : Option String := none
  args : Option (List Argument) := none

/-- Reads one field of an attribute. Other fields are ignored. -/
def Fields.read (slots : Fields) : String × Json → Decoded Fields
  | ("name", v) => return { slots with name := ← Json.fill slots.name v.text }
  | ("args", v) => return { slots with args := ← Json.fill slots.args (v.list Argument.ofJson) }
  | (_, v) => do v.ignored; return slots

/-- Decodes an attribute. The arguments may be left out. -/
def ofJson (v : Json) : Decoded Attribute := do
  let slots ← (← v.fields ["name", "args"]).foldlM Fields.read {}
  return { name := ← Json.required slots.name, args := slots.args.getD [] }

end Attribute

end PropExport
