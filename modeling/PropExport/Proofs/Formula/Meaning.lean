import PropExport.Proofs.Formula.OfExpr
import PropExport.Proofs.Formula.Reading

/-!
# What statements and formulas mean

Terms and formulas are given a meaning by an interpretation of the functions they call, and so are
the host expressions that have one. Translation keeps that meaning, and so does regrouping sums and
conjunctions. Hence the text of a translated statement means what the statement means, although it
is printed without parentheses.
-/

namespace PropExport

/-- What the functions of the target language compute. -/
abbrev Interpretation := String → List Nat → Nat

namespace Term

mutual

/-- The number that a term stands for. -/
def value (I : Interpretation) : Term → Nat
  | .num n => n
  | .add l r => l.value I + r.value I
  | .app fn args => I fn (valueAll I args)

/-- The numbers that some terms stand for. -/
def valueAll (I : Interpretation) : List Term → List Nat
  | [] => []
  | t :: ts => t.value I :: valueAll I ts

end

variable (I : Interpretation)

private theorem valueAll_eq (args : List Term) : valueAll I args = args.map (value I) := by
  induction args with
  | nil => rfl
  | cons t ts ih => rw [valueAll, ih, List.map_cons]

/-- The number that some terms add up to. -/
def total : List Term → Nat
  | [] => 0
  | t :: ts => t.value I + total ts

private theorem total_append (ts us : List Term) :
    total I (ts ++ us) = total I ts + total I us := by
  induction ts with
  | nil => rw [List.nil_append, total, Nat.zero_add]
  | cons t ts ih => rw [List.cons_append, total, ih, total, Nat.add_assoc]

private theorem value_foldl_add (t : Term) (ts : List Term) :
    (ts.foldl add t).value I = t.value I + total I ts := by
  induction ts generalizing t with
  | nil => rfl
  | cons u ts ih => rw [List.foldl_cons, ih, value, total, Nat.add_assoc]

private theorem value_sum (ts : List Term) : (sum ts).value I = total I ts := by
  cases ts with
  | nil => rfl
  | cons t ts => rw [sum, value_foldl_add, total]

private theorem total_summands (t : Term) : total I t.summands = t.value I := by
  induction t using induct with
  | num n => rfl
  | add l r ihl ihr => rw [summands, total_append, ihl, ihr, value]
  | app fn args ih =>
    have hargs : valueAll I (regroupAll args) = valueAll I args := by
      rw [valueAll_eq, valueAll_eq, regroupAll_eq, List.map_map]
      refine List.map_congr_left fun t ht => ?_
      rw [Function.comp_apply, regroup, value_sum, ih t ht]
    rw [summands, total, total, Nat.add_zero, value, hargs, value]

/-- Grouping sums to the left does not change the value. -/
theorem value_regroup (t : Term) : t.regroup.value I = t.value I := by
  rw [regroup, value_sum, total_summands]

end Term

namespace Formula

/-- Whether a formula is true. -/
def holds (I : Interpretation) : Formula → Bool
  | .eq l r => l.value I == r.value I
  | .and l r => l.holds I && r.holds I

variable (I : Interpretation)

private theorem holds_foldl_and (f : Formula) (fs : List Formula) :
    (fs.foldl and f).holds I = (f.holds I && fs.all (holds I)) := by
  induction fs generalizing f with
  | nil => simp
  | cons g fs ih => rw [List.foldl_cons, ih, holds, List.all_cons, Bool.and_assoc]

private theorem holds_conjunction (fs : List Formula) :
    (conjunction fs).holds I = fs.all (holds I) := by
  cases fs with
  | nil => rfl
  | cons f fs => rw [conjunction, holds_foldl_and, List.all_cons]

private theorem all_equations (f : Formula) : f.equations.all (holds I) = f.holds I := by
  induction f with
  | eq l r => simp [equations, holds, Term.value_regroup]
  | and l r ihl ihr => rw [equations, List.all_append, ihl, ihr, holds]

/-- Grouping sums and conjunctions to the left does not change the truth value. -/
theorem holds_regroup (f : Formula) : f.regroup.holds I = f.holds I := by
  rw [regroup, holds_conjunction, all_equations]

end Formula

namespace Expr

/-- The value of a constant applied to arguments with the given values. A constant in the table
stands for the function it is bound to, also if it is one of the constants of arithmetic. -/
def applied (symbols : SymbolTable) (I : Interpretation) (c : String) (values : List (Option Nat)) :
    Option Nat :=
  match symbols.find? c with
  | some target => (values.mapM id).map (I target)
  | none =>
    match values with
    | [n] => if c = Builtin.natSucc then n.map (· + 1) else none
    | [_, n, _] => if c = Builtin.ofNat then n else none
    | [_, _, _, _, l, r] => if c = Builtin.hAdd then do return (← l) + (← r) else none
    | _ => none

mutual

/-- The number that an expression stands for, if it stands for one. -/
def value (symbols : SymbolTable) (I : Interpretation) : Expr → Option Nat
  | .lit (.nat n) => some n
  | .const c => if c = Builtin.natZero then some 0 else none
  | .mdata e => e.value symbols I
  | .app f a => f.valueAt symbols I [a.value symbols I]
  | _ => none

/-- The value of a function at arguments with the given values. -/
def valueAt (symbols : SymbolTable) (I : Interpretation) : Expr → List (Option Nat) → Option Nat
  | .app f a, values => f.valueAt symbols I (a.value symbols I :: values)
  | .const c, values => applied symbols I c values
  | _, _ => none

end

/-- Whether an expression is true, if it is a statement about numbers. -/
def truth (symbols : SymbolTable) (I : Interpretation) : Expr → Option Bool
  | .mdata e => e.truth symbols I
  | .app (.app (.const c) l) r =>
    if c = Builtin.and then do return (← l.truth symbols I) && (← r.truth symbols I) else none
  | .app (.app (.app (.const c) _) l) r =>
    if c = Builtin.eq then do return (← l.value symbols I) == (← r.value symbols I) else none
  | _ => none

variable {symbols : SymbolTable} {I : Interpretation}

private theorem valueAt_of_spine {e : Expr} {c : String} {args : List Expr}
    (h : e.spine = (.const c, args)) (rest : List (Option Nat)) :
    e.valueAt symbols I rest = applied symbols I c (args.map (value symbols I) ++ rest) := by
  induction e generalizing args rest with
  | app f a ihf _ =>
    rw [spine_app, Prod.mk.injEq] at h
    obtain ⟨hhead, rfl⟩ := h
    rw [valueAt, ihf (Prod.ext hhead rfl), List.map_append, List.append_assoc]
    rfl
  | const c' => cases h; rfl
  | _ => cases h

/-- The value of an application comes from its head constant and the values of its arguments. -/
theorem value_of_constApp {e : Expr} {c : String} {args : List Expr}
    (h : e.constApp? = some (c, args)) (hargs : args ≠ []) :
    e.value symbols I = applied symbols I c (args.map (value symbols I)) := by
  have hspine := constApp?_eq_some_iff.mp h
  obtain ⟨f, a, rfl⟩ : ∃ f a, e = .app f a := by
    apply exists_app_of_args_ne_nil
    rwa [Expr.args, hspine]
  have hvalue : (app f a).value symbols I = (app f a).valueAt symbols I [] := rfl
  rw [hvalue, valueAt_of_spine hspine, List.append_nil]

private theorem applied_bound {c target : String} (h : symbols.find? c = some target)
    (values : List Nat) : applied symbols I c (values.map some) = some (I target values) := by
  have hall : (values.map some).mapM id = some values := by
    induction values with
    | nil => rfl
    | cons n values ih => simp [ih]
  simp [applied, h, hall]

end Expr

section Translation

variable {symbols : SymbolTable} {e : Expr}

/-- An expression stands for the same number as the term it becomes. -/
theorem Term.value_of_ofExpr {t : Term} (h : Term.ofExpr symbols e = .ok t) (I : Interpretation) :
    e.value symbols I = some (t.value I) := by
  refine Term.ofExpr_induct (motive := fun e t => e.value symbols I = some (t.value I))
    ?lit ?zero ?mdata ?bound ?succ ?ofNat ?hAdd e t h
  case lit => exact fun n => rfl
  case zero => rfl
  case mdata => exact fun e t ih => ih
  case bound =>
    intro e c args target ts happ hne hfind hargs
    have hvalues : args.map (Expr.value symbols I) = (ts.map (Term.value I)).map some := by
      rw [List.map_map, ← List.forall₂_eq_eq_eq, List.forall₂_map_left_iff,
        List.forall₂_map_right_iff]
      exact hargs
    rw [Expr.value_of_constApp happ hne, hvalues, Expr.applied_bound hfind, Term.value,
      Term.valueAll_eq]
  case succ =>
    intro e x t happ hfind hx
    rw [Expr.value_of_constApp happ (by simp)]
    simp [Expr.applied, hfind, hx, Term.value]
  case ofNat =>
    intro e x n y t happ hfind hn
    rw [Expr.value_of_constApp happ (by simp)]
    simp [Expr.applied, hfind, hn]
  case hAdd =>
    intro e w x y z l r s t happ hfind hl hr
    rw [Expr.value_of_constApp happ (by simp)]
    simp [Expr.applied, hfind, hl, hr, Term.value]

/-- A term calls only functions that some constant is bound to. -/
theorem Term.exists_find?_of_mem_names {t : Term} (h : Term.ofExpr symbols e = .ok t)
    {name : String} (hname : name ∈ t.names) : ∃ c, symbols.find? c = some name := by
  refine Term.ofExpr_induct (motive := fun _ t => name ∈ t.names → ∃ c, symbols.find? c = some name)
    ?lit ?zero ?mdata ?bound ?succ ?ofNat ?hAdd e t h hname
  case lit => simp [Term.names]
  case zero => simp [Term.names]
  case mdata => exact fun e t ih => ih
  case bound =>
    intro e c args target ts _ _ hfind hargs hname
    rw [Term.names, Term.namesAll_eq, List.mem_cons, List.mem_flatMap] at hname
    rcases hname with rfl | ⟨t, ht, hname⟩
    · exact ⟨c, hfind⟩
    · obtain ⟨i, hi, rfl⟩ := List.getElem_of_mem ht
      exact hargs.get (hargs.length_eq ▸ hi) hi hname
  case succ => exact fun e x t _ _ ih hname => ih (by simpa [Term.names] using hname)
  case ofNat => exact fun e x n y t _ _ ih => ih
  case hAdd =>
    intro e w x y z l r s t _ _ ihl ihr hname
    rcases List.mem_append.mp hname with hname | hname
    · exact ihl hname
    · exact ihr hname

/-- A statement has the same truth value as the formula it becomes. -/
theorem Formula.truth_of_ofExpr {f : Formula} (h : Formula.ofExpr symbols e = .ok f)
    (I : Interpretation) : e.truth symbols I = some (f.holds I) := by
  refine Formula.ofExpr_induct (motive := fun e f => e.truth symbols I = some (f.holds I))
    ?mdata ?eq ?and h
  case mdata => exact fun e f ih => ih
  case eq =>
    intro x l r s t hl hr
    simp [Expr.truth, Term.value_of_ofExpr hl, Term.value_of_ofExpr hr, Formula.holds]
  case and =>
    intro l r f g ihl ihr
    simp [Expr.truth, ihl, ihr, Formula.holds]

/-- A formula calls only functions that some constant is bound to. -/
theorem Formula.exists_find?_of_mem_names {f : Formula} (h : Formula.ofExpr symbols e = .ok f)
    {name : String} (hname : name ∈ f.names) : ∃ c, symbols.find? c = some name := by
  refine Formula.ofExpr_induct
    (motive := fun _ f => name ∈ f.names → ∃ c, symbols.find? c = some name)
    ?mdata ?eq ?and h hname
  case mdata => exact fun e f ih => ih
  case eq =>
    intro x l r s t hl hr hname
    rcases List.mem_append.mp hname with hname | hname
    · exact Term.exists_find?_of_mem_names hl hname
    · exact Term.exists_find?_of_mem_names hr hname
  case and =>
    intro l r f g ihl ihr hname
    rcases List.mem_append.mp hname with hname | hname
    · exact ihl hname
    · exact ihr hname

/-- If all targets are words, the text of a translated statement can be read, and what is read has
the truth value of the statement under every interpretation of the targets. -/
theorem Formula.read_print_keeps_truth {f : Formula}
    (htargets : ∀ binding ∈ symbols.bindings, Token.IsWord binding.2)
    (h : Formula.ofExpr symbols e = .ok f) (I : Interpretation) :
    ∃ f', Formula.read f.print = some f' ∧ e.truth symbols I = some (f'.holds I) := by
  have hnames : ∀ name ∈ f.names, Token.IsWord name := by
    intro name hname
    obtain ⟨c, hfind⟩ := Formula.exists_find?_of_mem_names h hname
    obtain ⟨before, after, hbindings, _⟩ := List.lookup_eq_some_iff.mp hfind
    exact htargets (c, name) (by simp [hbindings])
  refine ⟨f.regroup, Formula.read_print hnames, ?_⟩
  rw [Formula.truth_of_ofExpr h, Formula.holds_regroup]

/-- A conjunction nested to the right, with a sum nested to the right, a constant of arithmetic that
is bound to a function and one that is not, read back under the interpretation that multiplies the
arguments of a function. -/
theorem Formula.read_print_right_nested :
    let symbols := (SymbolTable.empty.insert "Nat.succ" "next").insert "pair" "Pair"
    let one := Expr.natSucc .natZero
    let sum := Expr.natAdd (.nat 1) (.natAdd (.nat 2) (.nat 3))
    let pair := (Expr.const "pair").apply [one, sum]
    let e := Expr.and (.natEq pair .natZero) (.mdata (.and (.natEq sum sum) (.natEq one (.nat 7))))
    let sum' := Term.add (.num 1) (.add (.num 2) (.num 3))
    let one' := Term.app "next" [.num 0]
    let f := Formula.and (.eq (.app "Pair" [one', sum']) (.num 0))
      (.and (.eq sum' sum') (.eq one' (.num 7)))
    (∀ binding ∈ symbols.bindings, Token.IsWord binding.2) ∧ Formula.ofExpr symbols e = .ok f ∧
    ∃ f', Formula.read f.print = some f' ∧
      e.truth symbols (fun _ args => args.foldl (· * ·) 1) =
        some (f'.holds fun _ args => args.foldl (· * ·) 1) :=
  ⟨by decide, rfl, Formula.read_print_keeps_truth (by decide) rfl _⟩

end Translation

end PropExport
