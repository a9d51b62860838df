/-!
# JSON values

The value type that the reader produces and the printer writes. Objects keep their members in
written order and may repeat a name. Two marks stand for text that is not a value: a fault, where
the text stops being JSON, and an illegible lexeme, which is scanned to its end but denotes nothing.
-/

namespace PropExport

/-- A JSON value as written, or the mark of a place that holds none. -/
inductive Json where
  | null
  | bool (b : Bool)
  /-- A number in plain digits. -/
  | nat (n : Nat)
  /-- A number with a sign, a fraction or an exponent, kept as written. -/
  | numeral (text : String)
  | str (s : String)
  | arr (elems : List Json)
  | obj (members : List (String × Json))
  /-- A string or number in correct form that has no value: half of a surrogate pair stands alone,
  or the magnitude lies beyond the largest double. -/
  | illegible
  /-- The place where the text stops being JSON. Nothing after it is read. -/
  | fault
  deriving Repr, Inhabited

namespace Json

mutual

/-- How deep brackets nest in a value. -/
def depth : Json → Nat
  | .arr elems => depthElems elems + 1
  | .obj members => depthMembers members + 1
  | _ => 0

/-- How deep brackets nest in the elements of an array. -/
def depthElems : List Json → Nat
  | [] => 0
  | v :: vs => max v.depth (depthElems vs)

/-- How deep brackets nest in the members of an object. -/
def depthMembers : List (String × Json) → Nat
  | [] => 0
  | (_, v) :: ms => max v.depth (depthMembers ms)

end

mutual

/-- Whether a value satisfies a test everywhere: at every array, object and leaf in it. -/
def everywhere (p : Json → Bool) : Json → Bool
  | .arr elems => p (.arr elems) && everyElem p elems
  | .obj members => p (.obj members) && everyMember p members
  | v => p v

/-- Whether all elements of an array satisfy a test everywhere. -/
def everyElem (p : Json → Bool) : List Json → Bool
  | [] => true
  | v :: vs => v.everywhere p && everyElem p vs

/-- Whether all members of an object satisfy a test everywhere. -/
def everyMember (p : Json → Bool) : List (String × Json) → Bool
  | [] => true
  | (_, v) :: ms => v.everywhere p && everyMember p ms

end

/-- Whether the value was scanned to its end. -/
def isIntact (v : Json) : Bool :=
  v.everywhere fun
    | .fault => false
    | _ => true

/-- Whether the value was scanned to its end and every part of it denotes something. -/
def isLegible (v : Json) : Bool :=
  v.everywhere fun
    | .fault => false
    | .illegible => false
    | _ => true

end Json

end PropExport
