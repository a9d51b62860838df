import PropExport.Expr.Builtin
import PropExport.Expr.Display
import PropExport.Formula.Basic
import PropExport.SymbolTable

/-!
# Statements as target formulas

Which host expressions have a counterpart in the target language, and what it is. Terms are
numerals, successors, sums and applications of aligned constants; formulas are equations of terms
and conjunctions. Metadata around an expression does not matter. Everything else is refused, and the
refused part is named.
-/

namespace PropExport

/-- The part of a statement that has no counterpart. -/
inductive Unsupported where
  /-- An expression that is no application. -/
  | expression (e : Expr)
  /-- An application of something other than a constant. -/
  | application (e : Expr)
  /-- An application of a constant that has no rule for it. -/
  | constantApplication (e : Expr)
  deriving DecidableEq, Repr

namespace Unsupported

/-- The refused expression. -/
def expr : Unsupported → Expr
  | .expression e => e
  | .application e => e
  | .constantApplication e => e

/-- The wording of a refusal. -/
def message : Unsupported → String
  | .expression e => "unsupported expression: " ++ e.display
  | .application e => "unsupported application: " ++ e.display
  | .constantApplication e => "unsupported constant application: " ++ e.display

/-- The refusal of a whole application. -/
def ofApplication (e : Expr) : Unsupported :=
  match e.head with
  | .const _ => .constantApplication e
  | _ => .application e

end Unsupported

namespace Term

/-- The results of a list if all of them succeed, else the first failure. -/
def all : List (Except Unsupported Term) → Except Unsupported (List Term)
  | [] => .ok []
  | t :: ts => do return (← t) :: (← all ts)

/-- The term for the application of a constant, given what its arguments become. An aligned constant
takes all its arguments along; otherwise the constants of arithmetic have rules at their full number
of arguments. -/
def ofConstApp (symbols : SymbolTable) (whole : Expr) (c : String)
    (args : List (Except Unsupported Term)) : Except Unsupported Term :=
  match symbols.find? c with
  | some target => (all args).map (.app target)
  | none =>
    match args with
    | [n] => if c = Builtin.natSucc then return .add (← n) (.num 1)
      else throw (.constantApplication whole)
    | [_, n, _] => if c = Builtin.ofNat then n else throw (.constantApplication whole)
    | [_, _, _, _, l, r] => if c = Builtin.hAdd then return .add (← l) (← r)
      else throw (.constantApplication whole)
    | _ => throw (.constantApplication whole)

mutual

/-- The term for an expression. -/
def ofExpr (symbols : SymbolTable) : Expr → Except Unsupported Term
  | .lit (.nat n) => .ok (.num n)
  | .mdata e => ofExpr symbols e
  | .const c => if c = Builtin.natZero then .ok (.num 0) else .error (.expression (.const c))
  | .app f a => ofSpine symbols (.app f a) f [ofExpr symbols a]
  | .bvar i => .error (.expression (.bvar i))
  | .sort n => .error (.expression (.sort n))
  | .lam t b => .error (.expression (.lam t b))
  | .pi t b => .error (.expression (.pi t b))
  | .lit (.str s) => .error (.expression (.lit (.str s)))

/-- The term for an application, whose remaining function is walked down to its head while the
arguments passed on the way are collected as what they become. -/
def ofSpine (symbols : SymbolTable) (whole : Expr) :
    Expr → List (Except Unsupported Term) → Except Unsupported Term
  | .app f a, args => ofSpine symbols whole f (ofExpr symbols a :: args)
  | .const c, args => ofConstApp symbols whole c args
  | _, _ => .error (.application whole)

end

end Term

namespace Formula

/-- The formula for an expression. -/
def ofExpr (symbols : SymbolTable) : Expr → Except Unsupported Formula
  | .mdata e => ofExpr symbols e
  | .app (.app (.const c) l) r =>
    if c = Builtin.and then do return .and (← ofExpr symbols l) (← ofExpr symbols r)
    else .error (.constantApplication (.app (.app (.const c) l) r))
  | .app (.app (.app (.const c) t) l) r =>
    if c = Builtin.eq then do return .eq (← Term.ofExpr symbols l) (← Term.ofExpr symbols r)
    else .error (.constantApplication (.app (.app (.app (.const c) t) l) r))
  | .app f a => .error (.ofApplication (.app f a))
  | e => .error (.expression e)

end Formula

end PropExport
