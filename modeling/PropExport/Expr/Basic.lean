/-!
# Host expressions

The part of the host logic's expression language that statements are written in: bound variables,
sorts, constants, applications, binders, literals and metadata wrappers. An application is curried;
its spine is the head under all arguments together with the arguments in order.
-/

namespace PropExport

/-- A literal value. -/
inductive Literal where
  | nat (n : Nat)
  | str (s : String)
  deriving DecidableEq, Repr, Inhabited

/-- A host expression. -/
inductive Expr where
  /-- A bound variable, counted from the innermost binder. -/
  | bvar (index : UInt32)
  /-- A universe; level zero is the universe of propositions. -/
  | sort (level : UInt32)
  | const (name : String)
  | app (fn arg : Expr)
  | lam (type body : Expr)
  | pi (type body : Expr)
  | lit (value : Literal)
  /-- Metadata around an expression, without meaning of its own. -/
  | mdata (e : Expr)
  deriving DecidableEq, Repr, Inhabited

namespace Expr

/-- The expression under all outer metadata. -/
def stripMeta : Expr → Expr
  | .mdata e => e.stripMeta
  | e => e

/-- The innermost function of an application. -/
def head : Expr → Expr
  | .app f _ => f.head
  | e => e

/-- Takes an application apart down to its innermost function, with the arguments in front of given
ones. -/
def spineOnto : Expr → List Expr → Expr × List Expr
  | .app f a, rest => f.spineOnto (a :: rest)
  | e, rest => (e, rest)

/-- The innermost function of an application and its arguments in order. -/
def spine (e : Expr) : Expr × List Expr :=
  e.spineOnto []

/-- The arguments of an application in order. -/
def args (e : Expr) : List Expr :=
  e.spine.2

/-- Applies a function to arguments, first argument first. -/
def apply (f : Expr) (args : List Expr) : Expr :=
  args.foldl .app f

/-- The name of a constant. -/
def constName? : Expr → Option String
  | .const c => some c
  | _ => none

/-- The constant at the head of an application and its arguments. A bare constant has none. -/
def constApp? (e : Expr) : Option (String × List Expr) :=
  match e.spine with
  | (.const c, args) => some (c, args)
  | _ => none

end Expr

end PropExport
