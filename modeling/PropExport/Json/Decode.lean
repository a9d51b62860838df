import PropExport.Json.Reader
import PropExport.Text.Quoted

/-!
# Decoding JSON

The shapes in which the file formats write their values: texts, bounded numbers, lists, records and
tagged records. A record is written as an object or as the array of its fields in order. Decoders
walk a value in the order of the text and report the first problem.
-/

namespace PropExport

/-- Why a text cannot be read. -/
inductive ReadError where
  /-- The text is not JSON, or not of the expected shape. -/
  | malformed
  /-- A natural literal is not a numeral. -/
  | natural (text : String) (cause : NumeralError)
  deriving DecidableEq, Repr

/-- The wording of a read error. -/
def ReadError.message : ReadError → String
  | .malformed => "malformed JSON"
  | .natural text cause => "invalid natural literal " ++ Text.quote text ++ ": " ++ cause.message

/-- What decoding gives. -/
abbrev Decoded (α : Type) := Except ReadError α

namespace Json

/-- How many brackets may be open at once. -/
def maxDepth : Nat := 127

/-- Decodes a text. -/
def text : Json → Decoded String
  | .str s => .ok s
  | _ => .error .malformed

/-- Decodes a number in plain digits below a bound. -/
def natBelow (bound : Nat) : Json → Decoded Nat
  | .nat n => if n < bound then .ok n else .error .malformed
  | _ => .error .malformed

/-- Decodes a 32-bit word. -/
def word32 (v : Json) : Decoded UInt32 :=
  (v.natBelow UInt32.size).map UInt32.ofNat

/-- Decodes a 64-bit word. -/
def word64 (v : Json) : Decoded UInt64 :=
  (v.natBelow UInt64.size).map UInt64.ofNat

/-- Decodes a list, element by element. -/
def list {α : Type} (decode : Json → Decoded α) : Json → Decoded (List α)
  | .arr elems => elems.mapM decode
  | _ => .error .malformed

/-- Accepts only a value that may be collected before it is decoded: it has no fault, every part of
it denotes something, and it opens no more brackets than allowed. -/
def collected (budget : Nat) (v : Json) : Decoded Unit :=
  if v.isLegible && v.depth ≤ budget then .ok () else .error .malformed

/-- Accepts any value that is scanned to its end. -/
def ignored (v : Json) : Decoded Unit :=
  if v.isIntact then .ok () else .error .malformed

/-- The fields of a record with the given field names, in written order. The elements of an array
take the names in order; an element too many is a fault after them. -/
def fields (names : List String) : Json → Decoded (List (String × Json))
  | .obj members => .ok members
  | .arr elems =>
    .ok (names.zip elems ++ if names.length < elems.length then [("", .fault)] else [])
  | _ => .error .malformed

/-- Decodes a field into a slot that is still empty. A field may be written only once. -/
def fill {α : Type} (slot : Option α) (value : Decoded α) : Decoded (Option α) :=
  match slot with
  | some _ => .error .malformed
  | none => value.map some

/-- The content of a slot that has to be filled. -/
def required {α : Type} : Option α → Decoded α
  | some a => .ok a
  | none => .error .malformed

/-- Splits a tagged record into its tag and the record without it. The tag is a member of an object,
written once, or the first element of an array. -/
def tagged (tag : String) : Json → Decoded (String × Json)
  | .obj members =>
    match members.filter (·.1 == tag) with
    | [(_, .str name)] => .ok (name, .obj (members.filter (·.1 != tag)))
    | _ => .error .malformed
  | .arr (.str name :: elems) => .ok (name, .arr elems)
  | _ => .error .malformed

end Json

/-- Decodes a whole document. Text after the value is noticed last. -/
def Document.decode {α : Type} (decode : Json → Decoded α) (text : String) : Decoded α := do
  let document := Document.read text
  let value ← decode document.root
  if document.isClosed then return value else throw .malformed

end PropExport
