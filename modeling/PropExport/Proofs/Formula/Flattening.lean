import PropExport.Proofs.Formula.Reading

/-!
# What a text shows of a formula

The text of a formula does not show how sums and conjunctions are grouped, but it shows everything
else. To say so, sums are flattened into the lists of their summands and conjunctions into the lists
of their equations. The text can be written from what is left, and what is left can be read off the
text.
-/

namespace PropExport

namespace Text

/-- Where two rows meet there is a separator. -/
theorem separated_append (separator : String) {left right : List String} (hleft : left ≠ [])
    (hright : right ≠ []) :
    separated separator (left ++ right) =
      separated separator left ++ separator ++ separated separator right := by
  have hcons (t : String) {ts : List String} (hts : ts ≠ []) :
      separated separator (t :: ts) = t ++ separator ++ separated separator ts := by
    cases ts with
    | nil => exact absurd rfl hts
    | cons u ts => rfl
  induction left with
  | nil => exact absurd rfl hleft
  | cons t ts ih =>
    by_cases hts : ts = []
    · rw [hts, List.singleton_append, hcons t hright]
      rfl
    · have hmore : ts ++ right ≠ [] := by simp [hts]
      rw [List.cons_append, hcons t hmore, ih hts, hcons t hts]
      simp only [String.append_assoc]

end Text

/-- A summand of a flattened term: a number, or a call whose arguments are flattened as well. -/
inductive Summand where
  | num (n : Nat)
  | call (fn : String) (args : List (List Summand))

namespace Summand

mutual

/-- The text of a summand. -/
def print : Summand → String
  | .num n => toString n
  | .call fn args => fn ++ "(" ++ Text.separated ", " (printRows args) ++ ")"

/-- The texts of some summands. -/
def printRow : List Summand → List String
  | [] => []
  | s :: row => s.print :: printRow row

/-- The texts of some flattened terms. -/
def printRows : List (List Summand) → List String
  | [] => []
  | row :: rows => Text.separated " + " (printRow row) :: printRows rows

end

/-- The text of a flattened term. -/
def printSum (row : List Summand) : String :=
  Text.separated " + " (row.map print)

private theorem printRow_eq (row : List Summand) : printRow row = row.map print := by
  induction row with
  | nil => rfl
  | cons s row ih => rw [printRow, ih, List.map_cons]

private theorem printRows_eq (rows : List (List Summand)) : printRows rows = rows.map printSum := by
  induction rows with
  | nil => rfl
  | cons row rows ih => rw [printRows, ih, printRow_eq, List.map_cons, printSum]

private theorem printSum_append {left right : List Summand} (hleft : left ≠ [])
    (hright : right ≠ []) :
    printSum (left ++ right) = printSum left ++ " + " ++ printSum right := by
  have hleft : left.map print ≠ [] := by simpa using hleft
  have hright : right.map print ≠ [] := by simpa using hright
  rw [printSum, List.map_append, Text.separated_append " + " hleft hright]
  rfl

end Summand

namespace Term

mutual

/-- The summands of a term. -/
def flat : Term → List Summand
  | .num n => [.num n]
  | .add l r => l.flat ++ r.flat
  | .app fn args => [.call fn (flatAll args)]

/-- The summands of some terms. -/
def flatAll : List Term → List (List Summand)
  | [] => []
  | t :: ts => t.flat :: flatAll ts

end

private theorem flatAll_eq (args : List Term) : flatAll args = args.map flat := by
  induction args with
  | nil => rfl
  | cons t ts ih => rw [flatAll, ih, List.map_cons]

private theorem flat_ne_nil (t : Term) : t.flat ≠ [] := by
  induction t using induct with
  | num n => simp [flat]
  | add l r ihl ihr => simp [flat, ihl]
  | app fn args ih => simp [flat]

/-- The text of a term is written from its summands. -/
theorem print_eq_printSum (t : Term) : t.print = Summand.printSum t.flat := by
  induction t using induct with
  | num n => rfl
  | add l r ihl ihr =>
    rw [print, flat, Summand.printSum_append l.flat_ne_nil r.flat_ne_nil, ihl, ihr]
  | app fn args ih =>
    have hargs : printAll args = Summand.printRows (flatAll args) := by
      rw [printAll_eq, Summand.printRows_eq, flatAll_eq, List.map_map]
      exact List.map_congr_left ih
    rw [print, hargs]
    rfl

private theorem flat_foldl_add (t : Term) (ts : List Term) :
    (ts.foldl add t).flat = t.flat ++ ts.flatMap flat := by
  induction ts generalizing t with
  | nil => simp
  | cons u ts ih => rw [List.foldl_cons, ih, flat, List.flatMap_cons, List.append_assoc]

private theorem flat_sum {ts : List Term} (h : ts ≠ []) : (sum ts).flat = ts.flatMap flat := by
  cases ts with
  | nil => exact absurd rfl h
  | cons t ts => rw [sum, flat_foldl_add, List.flatMap_cons]

private theorem summands_ne_nil (t : Term) : t.summands ≠ [] := by
  induction t using induct with
  | num n => simp [summands]
  | add l r ihl ihr => simp [summands, ihl]
  | app fn args ih => simp [summands]

private theorem flatMap_summands (t : Term) : t.summands.flatMap flat = t.flat := by
  induction t using induct with
  | num n => rfl
  | add l r ihl ihr => rw [summands, List.flatMap_append, ihl, ihr, flat]
  | app fn args ih =>
    have hargs : flatAll (regroupAll args) = flatAll args := by
      rw [flatAll_eq, flatAll_eq, regroupAll_eq, List.map_map]
      refine List.map_congr_left fun t ht => ?_
      rw [Function.comp_apply, regroup, flat_sum t.summands_ne_nil, ih t ht]
    rw [summands, List.flatMap_singleton, flat, hargs, flat]

/-- Grouping sums to the left does not change the summands. -/
theorem flat_regroup (t : Term) : t.regroup.flat = t.flat := by
  rw [regroup, flat_sum t.summands_ne_nil, flatMap_summands]

/-- The tokens of a text that is a term. -/
theorem ofText_print {t : Term} (h : ∀ name ∈ t.names, Token.IsWord name) :
    Token.ofText t.print = t.tokens := by
  have hscan := scans_of_isWord h [] (by simp [Token.EndsWord])
  have hnil : Token.scan [] [] = [] := rfl
  rwa [hnil, List.append_nil, List.append_nil] at hscan

/-- Terms with the same text have the same summands. -/
theorem flat_eq_of_print_eq {s t : Term} (hs : ∀ name ∈ s.names, Token.IsWord name)
    (ht : ∀ name ∈ t.names, Token.IsWord name) (h : s.print = t.print) : s.flat = t.flat := by
  have htokens : s.tokens = t.tokens := by rw [← ofText_print hs, ← ofText_print ht, h]
  have hend : EndsSum [] := by simp [EndsSum]
  have hread (u : Term) : read u.tokens.length u.tokens = some (u.regroup, []) := by
    have hall := u.readsSummands.read_tokens (Nat.le_refl _) hend
    rwa [List.append_nil] at hall
  have hregroup : some (s.regroup, ([] : List Token)) = some (t.regroup, []) := by
    rw [← hread s, ← hread t, htokens]
  have hterms : s.regroup = t.regroup := congrArg Prod.fst (Option.some.inj hregroup)
  rw [← s.flat_regroup, ← t.flat_regroup, hterms]

end Term

namespace Formula

/-- The two sides of each equation in a formula, flattened. -/
def flat : Formula → List (List Summand × List Summand)
  | .eq l r => [(l.flat, r.flat)]
  | .and l r => l.flat ++ r.flat

/-- The text of a flattened equation. -/
def printEquation (equation : List Summand × List Summand) : String :=
  Summand.printSum equation.1 ++ " == " ++ Summand.printSum equation.2

/-- The text of some flattened equations. -/
def printEquations (equations : List (List Summand × List Summand)) : String :=
  Text.separated " && " (equations.map printEquation)

private theorem flat_ne_nil (f : Formula) : f.flat ≠ [] := by
  induction f with
  | eq l r => simp [flat]
  | and l r ihl ihr => simp [flat, ihl]

/-- The text of a formula is written from its equations. -/
theorem print_eq_printEquations (f : Formula) : f.print = printEquations f.flat := by
  induction f with
  | eq l r =>
    rw [print, l.print_eq_printSum, r.print_eq_printSum]
    rfl
  | and l r ihl ihr =>
    have hl : l.flat.map printEquation ≠ [] := by simp [l.flat_ne_nil]
    have hr : r.flat.map printEquation ≠ [] := by simp [r.flat_ne_nil]
    rw [print, ihl, ihr, flat, printEquations, printEquations, printEquations, List.map_append,
      Text.separated_append " && " hl hr]

private theorem flat_foldl_and (f : Formula) (fs : List Formula) :
    (fs.foldl and f).flat = f.flat ++ fs.flatMap flat := by
  induction fs generalizing f with
  | nil => simp
  | cons g fs ih => rw [List.foldl_cons, ih, flat, List.flatMap_cons, List.append_assoc]

private theorem equations_ne_nil (f : Formula) : f.equations ≠ [] := by
  induction f with
  | eq l r => simp [equations]
  | and l r ihl ihr => simp [equations, ihl]

private theorem flatMap_equations (f : Formula) : f.equations.flatMap flat = f.flat := by
  induction f with
  | eq l r => rw [equations, List.flatMap_singleton, flat, l.flat_regroup, r.flat_regroup, flat]
  | and l r ihl ihr => rw [equations, List.flatMap_append, ihl, ihr, flat]

/-- Grouping sums and conjunctions to the left does not change the equations. -/
theorem flat_regroup (f : Formula) : f.regroup.flat = f.flat := by
  rw [← flatMap_equations f, regroup]
  cases hequations : f.equations with
  | nil => exact absurd hequations f.equations_ne_nil
  | cons g gs => rw [conjunction, flat_foldl_and, List.flatMap_cons]

/-- Formulas with the same text have the same equations. -/
theorem flat_eq_of_print_eq {f g : Formula} (hf : ∀ name ∈ f.names, Token.IsWord name)
    (hg : ∀ name ∈ g.names, Token.IsWord name) (h : f.print = g.print) : f.flat = g.flat := by
  have hregroup : some f.regroup = some g.regroup := by
    rw [← read_print hf, ← read_print hg, h]
  rw [← f.flat_regroup, ← g.flat_regroup, Option.some.inj hregroup]

end Formula

/-- Two formulas whose function names are words have the same text exactly if they are equal once
their sums are flattened into lists of summands, in the arguments of calls too, and their
conjunctions into lists of equations; and so have two terms. -/
theorem print_eq_print_iff :
    (∀ f g : Formula, (∀ name ∈ f.names, Token.IsWord name) →
      (∀ name ∈ g.names, Token.IsWord name) →
      (f.print = g.print ↔ f.flat = g.flat)) ∧
    ∀ s t : Term, (∀ name ∈ s.names, Token.IsWord name) → (∀ name ∈ t.names, Token.IsWord name) →
      (s.print = t.print ↔ s.flat = t.flat) := by
  constructor
  · intro f g hf hg
    refine ⟨Formula.flat_eq_of_print_eq hf hg, fun h => ?_⟩
    rw [f.print_eq_printEquations, g.print_eq_printEquations, h]
  · intro s t hs ht
    refine ⟨Term.flat_eq_of_print_eq hs ht, fun h => ?_⟩
    rw [s.print_eq_printSum, t.print_eq_printSum, h]

/-- Sums and conjunctions may be grouped in another way, also inside a call, but a summand cannot
move to the next argument. -/
theorem print_eq_print_iff_regrouped :
    let formula (a b c : Term) : Formula := .eq (.add a (.app "F" [b, c])) (.num 0)
    let sum (i j k : Nat) : Term := .add (.num i) (.add (.num j) (.num k))
    let sum' (i j k : Nat) : Term := .add (.add (.num i) (.num j)) (.num k)
    let truth : Formula := .eq (.app "G" []) (.app "G" [])
    let f := Formula.and (formula (sum 1 2 3) (sum 4 5 6) (.num 7)) (.and truth truth)
    let g := Formula.and (.and (formula (sum' 1 2 3) (sum' 4 5 6) (.num 7)) truth) truth
    let h := Formula.and (formula (sum 1 2 3) (.num 4) (sum 5 6 7)) (.and truth truth)
    (∀ name ∈ f.names ++ g.names ++ h.names, Token.IsWord name) ∧ f.print = g.print ∧
    f.print ≠ h.print ∧ (sum 1 2 3).print = (sum' 1 2 3).print := by
  intro formula sum sum' truth f g h
  have hnames : ∀ name ∈ f.names ++ g.names ++ h.names, Token.IsWord name := by decide
  have hf : ∀ name ∈ f.names, Token.IsWord name := by decide
  have hg : ∀ name ∈ g.names, Token.IsWord name := by decide
  have hh : ∀ name ∈ h.names, Token.IsWord name := by decide
  have hdiffer : f.flat ≠ h.flat := by
    simp [f, h, formula, sum, Formula.flat, Term.flat, Term.flatAll]
  obtain ⟨hformulas, hterms⟩ := print_eq_print_iff
  refine ⟨hnames, (hformulas f g hf hg).mpr rfl,
    fun heq => hdiffer ((hformulas f h hf hh).mp heq), ?_⟩
  exact (hterms (sum 1 2 3) (sum' 1 2 3) (by decide) (by decide)).mpr rfl

end PropExport
