import PropExport.Expr.Basic
import PropExport.Json.Decode
import PropExport.Json.Printer

/-!
# Expressions as JSON

An expression is an object with one member, named for the kind of expression. A natural literal is a
number as long as it fits in a 64-bit word and a numeral in a string beyond that; numerals of any
size are read.
-/

namespace PropExport

/-- A literal as JSON. -/
def Literal.toJson : Literal → Json
  | .nat n => .obj [("nat", if n < UInt64.size then .nat n else .str (toString n))]
  | .str s => .obj [("str", .str s)]

/-- An expression as JSON. -/
def Expr.toJson : Expr → Json
  | .bvar i => .obj [("bvar", .nat i.toNat)]
  | .sort n => .obj [("sort", .nat n.toNat)]
  | .const c => .obj [("const", .str c)]
  | .app f a => .obj [("app", .arr [f.toJson, a.toJson])]
  | .lam t b => .obj [("lam", .arr [t.toJson, b.toJson])]
  | .pi t b => .obj [("pi", .arr [t.toJson, b.toJson])]
  | .lit l => .obj [("lit", l.toJson)]
  | .mdata e => .obj [("mdata", e.toJson)]

namespace Json

/-- Decodes a natural number of any size. -/
def natural : Json → Decoded Nat
  | .nat n => if n < UInt64.size then .ok n else .error .malformed
  | .str s =>
    match Numeral.parse s with
    | .ok n => .ok n
    | .error cause => .error (.natural s cause)
  | _ => .error .malformed

/-- Decodes an object with one member by its name and value. The first argument tells whether the
object is decoded while the text is scanned: then a second member is noticed only after the first is
decoded. -/
def variant {α : Type} (scanning : Bool) (decode : String → Json → Decoded α) :
    Json → Decoded α
  | .obj ((name, v) :: rest) => do
    if !scanning && !rest.isEmpty then throw .malformed
    let a ← decode name v
    if rest.isEmpty then return a else throw .malformed
  | _ => .error .malformed

/-- Decodes an array of two elements. -/
def pair {α β : Type} (first : Json → Decoded α) (second : Json → Decoded β) :
    Json → Decoded (α × β)
  | .arr (v :: vs) => do
    let a ← first v
    match vs with
    | [] => throw .malformed
    | w :: ws =>
      let b ← second w
      if ws.isEmpty then return (a, b) else throw .malformed
  | _ => .error .malformed

end Json

/-- Decodes a literal. -/
def Literal.ofJson (scanning : Bool) : Json → Decoded Literal :=
  Json.variant scanning fun
    | "nat", v => v.natural.map .nat
    | "str", v => v.text.map .str
    | _, _ => .error .malformed

/-- Decodes an expression that may open the given number of brackets. -/
def Expr.ofJson (scanning : Bool) : Nat → Json → Decoded Expr
  | 0 => fun _ => .error .malformed
  | budget + 1 =>
    let operands : Json → Decoded (Expr × Expr) :=
      match budget with
      | 0 => fun _ => .error .malformed
      | budget + 1 => Json.pair (Expr.ofJson scanning budget) (Expr.ofJson scanning budget)
    Json.variant scanning fun
      | "bvar", v => v.word32.map .bvar
      | "sort", v => v.word32.map .sort
      | "const", v => v.text.map .const
      | "app", v => (operands v).map fun (f, a) => .app f a
      | "lam", v => (operands v).map fun (t, b) => .lam t b
      | "pi", v => (operands v).map fun (t, b) => .pi t b
      | "lit", v => if budget = 0 then .error .malformed else (Literal.ofJson scanning v).map .lit
      | "mdata", v => (Expr.ofJson scanning budget v).map .mdata
      | _, _ => .error .malformed

/-- Reads an expression from its JSON text. -/
def Expr.parse (text : String) : Decoded Expr :=
  Document.decode (Expr.ofJson true Json.maxDepth) text

/-- The JSON text of an expression. -/
def Expr.print (e : Expr) : String :=
  e.toJson.compact

end PropExport
