import PropExport.Expr.Builtin

/-!
# Declarations

The declarations a unit has made so far, and the question whether a type is a proposition.
Declarations arrive with complete types, so the answer is read off the head of the type under its
binders.
-/

namespace PropExport

namespace Expr

/-- What a function type gives in the end, without metadata. -/
def codomain : Expr → Expr
  | .mdata e => e.codomain
  | .pi _ b => b.codomain
  | e => e

/-- Whether a type is that of propositions or of predicates. -/
def yieldsProp (type : Expr) : Bool :=
  type.codomain == prop

/-- The types of the binders around the end of a type, outermost first and after the given ones, and
the end itself. -/
def telescope (binders : List Expr) : Expr → List Expr × Expr
  | .mdata e => e.telescope binders
  | .pi t b => b.telescope (binders ++ [t])
  | e => (binders, e)

/-- The type of the binder that an index refers to. Indices count from the innermost binder, which
is the last one. -/
def binderAt? (binders : List Expr) (i : Nat) : Option Expr :=
  if i < binders.length then binders[binders.length - (i + 1)]? else none

end Expr

/-- The names declared so far with their types, latest last. -/
structure Declarations where
  types : List (String × Expr) := []
  deriving DecidableEq, Repr, Inhabited

namespace Declarations

/-- The type of a declared name. -/
def find? (decls : Declarations) (name : String) : Option Expr :=
  decls.types.lookup name

/-- Declares a name, unless it is declared already. -/
def add? (decls : Declarations) (name : String) (type : Expr) : Option Declarations :=
  match decls.find? name with
  | some _ => none
  | none => some { types := decls.types ++ [(name, type)] }

/-- Whether a type is a proposition: under its binders stands the application of a proposition
former, of a declared predicate or of a bound predicate. -/
def isProposition (decls : Declarations) (type : Expr) : Bool :=
  let (binders, body) := type.telescope []
  match body.head.stripMeta with
  | .const c => Builtin.propositionFormers.contains c || (decls.find? c).any Expr.yieldsProp
  | .bvar i => (Expr.binderAt? binders i.toNat).any Expr.yieldsProp
  | _ => false

end Declarations

end PropExport
