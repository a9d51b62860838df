import PropExport.Expr.Basic

/-!
# Built-in constants

The constants of the host logic that statements are made of, and the elaborated form of numerals,
sums, equations and conjunctions.
-/

namespace PropExport

namespace Builtin

def nat : String := "Nat"
def natZero : String := "Nat.zero"
def natSucc : String := "Nat.succ"
def instOfNat : String := "instOfNatNat"
def ofNat : String := "OfNat.ofNat"
def hAdd : String := "HAdd.hAdd"
def instHAdd : String := "instHAdd"
def instAddNat : String := "instAddNat"
def eq : String := "Eq"
def and : String := "And"

/-- The constants whose applications are propositions. -/
def propositionFormers : List String :=
  [eq, and, "Ne", "Or", "Not", "Iff", "True", "False", "LE.le", "LT.lt", "GE.ge", "GT.gt"]

end Builtin

namespace Expr

/-- A natural literal. -/
def natLit (n : Nat) : Expr := .lit (.nat n)

/-- A string literal. -/
def strLit (s : String) : Expr := .lit (.str s)

/-- The type of natural numbers. -/
def natType : Expr := .const Builtin.nat

/-- The universe of propositions. -/
def prop : Expr := .sort 0

/-- An elaborated numeral. -/
def nat (n : Nat) : Expr :=
  (Expr.const Builtin.ofNat).apply
    [natType, natLit n, (Expr.const Builtin.instOfNat).apply [natLit n]]

/-- The number zero as a constant. -/
def natZero : Expr := .const Builtin.natZero

/-- The successor of a number. -/
def natSucc (n : Expr) : Expr := .app (.const Builtin.natSucc) n

/-- An elaborated sum of two numbers. -/
def natAdd (a b : Expr) : Expr :=
  (Expr.const Builtin.hAdd).apply
    [natType, natType, natType,
      (Expr.const Builtin.instHAdd).apply [natType, .const Builtin.instAddNat], a, b]

/-- An equation at a type. -/
def eq (type lhs rhs : Expr) : Expr :=
  (Expr.const Builtin.eq).apply [type, lhs, rhs]

/-- An equation between numbers. -/
def natEq (lhs rhs : Expr) : Expr := eq natType lhs rhs

/-- A conjunction. -/
def and (l r : Expr) : Expr :=
  (Expr.const Builtin.and).apply [l, r]

end Expr

end PropExport
