import PropExport.Expr.Basic
import PropExport.Text.Quoted

/-!
# Shown expressions

How expressions appear in messages: an application as its head and arguments in one pair of
parentheses, binders without names, bound variables by index. Metadata is not shown.
-/

namespace PropExport

/-- How a literal is shown. -/
def Literal.display : Literal → String
  | .nat n => toString n
  | .str s => Text.quote s

namespace Expr

/-- How an expression is shown. The function part of an application continues the spine it stands
in, so its own application is not `enclosed` in parentheses again. -/
def displayAs (enclosed : Bool) : Expr → String
  | .bvar i => "#" ++ toString i.toNat
  | .sort n => if n = 0 then "Prop" else "Sort " ++ toString n.toNat
  | .const c => c
  | .app f a =>
    let spine := f.displayAs false ++ " " ++ a.displayAs true
    if enclosed then "(" ++ spine ++ ")" else spine
  | .lam t b => "(fun _ : " ++ t.displayAs true ++ " => " ++ b.displayAs true ++ ")"
  | .pi t b => "(" ++ t.displayAs true ++ " → " ++ b.displayAs true ++ ")"
  | .lit l => l.display
  | .mdata e => e.displayAs true

/-- How a whole expression is shown. -/
def display (e : Expr) : String :=
  e.displayAs true

end Expr

end PropExport
