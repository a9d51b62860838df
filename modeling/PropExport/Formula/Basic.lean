import PropExport.Text.Layout

/-!
# Target terms and formulas

What exported statements are made of: terms over natural numbers with sums and calls, and formulas
that are equations or conjunctions of formulas. They are printed without parentheses around sums and
conjunctions, because the target language groups both to the left and binds sums tighter than
equations and equations tighter than conjunctions.
-/

namespace PropExport

/-- A value expression of the target language. -/
inductive Term where
  | num (n : Nat)
  | add (l r : Term)
  /-- A call of a function. -/
  | app (fn : String) (args : List Term)
  deriving Repr, Inhabited

/-- A boolean expression of the target language. -/
inductive Formula where
  | eq (l r : Term)
  | and (l r : Formula)
  deriving Repr, Inhabited

namespace Term

mutual

/-- The text of a term. -/
def print : Term → String
  | .num n => toString n
  | .add l r => l.print ++ " + " ++ r.print
  | .app f args => f ++ "(" ++ Text.separated ", " (printAll args) ++ ")"

/-- The texts of some terms. -/
def printAll : List Term → List String
  | [] => []
  | t :: ts => t.print :: printAll ts

end

end Term

namespace Formula

/-- The text of a formula. -/
def print : Formula → String
  | .eq l r => l.print ++ " == " ++ r.print
  | .and l r => l.print ++ " && " ++ r.print

/-- The number of equations in a formula. -/
def atomCount : Formula → Nat
  | .eq _ _ => 1
  | .and l r => l.atomCount + r.atomCount

/-- The line that declares a named formula. -/
def declaration (keyword name : String) (f : Formula) : String :=
  keyword ++ " " ++ name ++ " : " ++ f.print

end Formula

end PropExport
