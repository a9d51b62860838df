import PropExport.Proofs.Formula.Flattening
import PropExport.Proofs.Formula.Rules

/-!
# What translation can give

Every call in a translated term has arguments and is one of a function that a constant is bound to.
There is no other restriction: as long as sums have their own rule, every such term comes from an
expression that is built of literals, sums and applications of bound constants, and it can be found
by putting the names of constants in the place of their targets. The same holds of formulas, with
equations and conjunctions on top.
-/

namespace PropExport

namespace Text

/-- Characters that end neither in an opening bracket nor in an empty pair of brackets. -/
def EndsFilled (cs : List Char) : Prop :=
  (∃ front c, cs = front ++ [c] ∧ c ≠ '(' ∧ c ≠ ')') ∨ ∃ front c, cs = front ++ [c, ')'] ∧ c ≠ '('

private theorem EndsFilled.append_left {cs : List Char} (h : EndsFilled cs) (front : List Char) :
    EndsFilled (front ++ cs) := by
  rcases h with ⟨more, c, rfl, hc⟩ | ⟨more, c, rfl, hc⟩
  · exact .inl ⟨front ++ more, c, (List.append_assoc ..).symm, hc⟩
  · exact .inr ⟨front ++ more, c, (List.append_assoc ..).symm, hc⟩

private theorem EndsFilled.concat_closing {cs : List Char} (h : EndsFilled cs) :
    EndsFilled (cs ++ [')']) := by
  rcases h with ⟨front, c, rfl, hc, _⟩ | ⟨front, c, rfl, _⟩
  · exact .inr ⟨front, c, by simp, hc⟩
  · exact .inr ⟨front ++ [c], ')', by simp, by decide⟩

private theorem EndsFilled.ne_empty_call {text : String} (h : EndsFilled text.toList)
    (fn : String) : text ≠ fn ++ "()" := by
  rintro rfl
  have hcall : (fn ++ "()").toList = fn.toList ++ ['(', ')'] := String.toList_append
  rw [hcall] at h
  rcases h with ⟨front, c, hcs, _, hc⟩ | ⟨front, c, hcs, hc⟩
  · have hlast := congrArg List.getLast? hcs
    simp only [List.getLast?_append, List.getLast?_cons_cons, List.getLast?_singleton,
      Option.some_or, Option.some.injEq] at hlast
    exact hc hlast.symm
  · obtain ⟨_, hpair⟩ := List.append_inj' hcs rfl
    cases hpair
    exact hc rfl

/-- A row ends in its last text. -/
theorem exists_separated_concat (separator : String) (texts : List String) (text : String) :
    ∃ front, separated separator (texts ++ [text]) = front ++ text := by
  by_cases htexts : texts = []
  · exact ⟨"", by rw [htexts, String.empty_append]; rfl⟩
  · exact ⟨_, separated_append separator htexts (List.cons_ne_nil text [])⟩

end Text

namespace Term

mutual

/-- A term with all that it is built from. -/
def subterms : Term → List Term
  | .num n => [.num n]
  | .add l r => .add l r :: (l.subterms ++ r.subterms)
  | .app fn args => .app fn args :: subtermsAll args

/-- Some terms with all that they are built from. -/
def subtermsAll : List Term → List Term
  | [] => []
  | t :: ts => t.subterms ++ subtermsAll ts

end

private theorem subtermsAll_eq (args : List Term) : subtermsAll args = args.flatMap subterms := by
  induction args with
  | nil => rfl
  | cons t ts ih => rw [subtermsAll, ih, List.flatMap_cons]

private theorem mem_subterms_app {u : Term} {fn : String} {args : List Term} :
    u ∈ (app fn args).subterms ↔ u = app fn args ∨ ∃ t ∈ args, u ∈ t.subterms := by
  rw [subterms, subtermsAll_eq, List.mem_cons, List.mem_flatMap]

private theorem mem_subterms_add {u l r : Term} :
    u ∈ (add l r).subterms ↔ u = add l r ∨ u ∈ l.subterms ∨ u ∈ r.subterms := by
  rw [subterms, List.mem_cons, List.mem_append]

private theorem mem_subterms_trans {t u v : Term} (hv : v ∈ u.subterms) (hu : u ∈ t.subterms) :
    v ∈ t.subterms := by
  induction t using induct with
  | num n =>
    obtain rfl := List.mem_singleton.mp hu
    exact hv
  | add l r ihl ihr =>
    rcases mem_subterms_add.mp hu with rfl | hu | hu
    · exact hv
    · exact mem_subterms_add.mpr (.inr (.inl (ihl hu)))
    · exact mem_subterms_add.mpr (.inr (.inr (ihr hu)))
  | app fn args ih =>
    rcases mem_subterms_app.mp hu with rfl | ⟨t, ht, hu⟩
    · exact hv
    · exact mem_subterms_app.mpr (.inr ⟨t, ht, ih t ht hu⟩)

/-- Among some terms, every call has arguments and is one of a function that some constant is bound
to. -/
def CallsBound (symbols : SymbolTable) (terms : List Term) : Prop :=
  ∀ fn args, .app fn args ∈ terms → args ≠ [] ∧ ∃ c, symbols.find? c = some fn

variable {symbols : SymbolTable}

private theorem callsBound_append {ts us : List Term} :
    CallsBound symbols (ts ++ us) ↔ CallsBound symbols ts ∧ CallsBound symbols us := by
  constructor
  · intro h
    exact ⟨fun fn args hmem => h fn args (List.mem_append_left us hmem),
      fun fn args hmem => h fn args (List.mem_append_right ts hmem)⟩
  · rintro ⟨hts, hus⟩ fn args hmem
    exact (List.mem_append.mp hmem).elim (hts fn args) (hus fn args)

private theorem callsBound_num (symbols : SymbolTable) (n : Nat) :
    CallsBound symbols (num n).subterms := by
  intro fn args hmem
  cases List.mem_singleton.mp hmem

private theorem callsBound_add {l r : Term} :
    CallsBound symbols (add l r).subterms ↔
      CallsBound symbols l.subterms ∧ CallsBound symbols r.subterms := by
  rw [← callsBound_append]
  constructor
  · exact fun h fn args hmem => h fn args (List.mem_cons_of_mem _ hmem)
  · intro h fn args hmem
    rcases List.mem_cons.mp hmem with hwhole | hmem
    · cases hwhole
    · exact h fn args hmem

private theorem callsBound_app {fn : String} {args : List Term} :
    CallsBound symbols (app fn args).subterms ↔
      (args ≠ [] ∧ ∃ c, symbols.find? c = some fn) ∧ ∀ t ∈ args, CallsBound symbols t.subterms := by
  constructor
  · intro h
    refine ⟨h fn args (mem_subterms_app.mpr (.inl rfl)), fun t ht fn' args' hmem => ?_⟩
    exact h fn' args' (mem_subterms_app.mpr (.inr ⟨t, ht, hmem⟩))
  · rintro ⟨hcall, hargs⟩ fn' args' hmem
    rcases mem_subterms_app.mp hmem with hwhole | ⟨t, ht, hmem⟩
    · obtain ⟨rfl, rfl⟩ := Term.app.inj hwhole
      exact hcall
    · exact hargs t ht fn' args' hmem

/-- What is translated calls bound functions only. -/
theorem callsBound_of_ofExpr {e : Expr} {t : Term} (h : ofExpr symbols e = .ok t) :
    CallsBound symbols t.subterms := by
  refine ofExpr_induct (motive := fun _ t => CallsBound symbols t.subterms)
    (fun n => callsBound_num symbols n) (callsBound_num symbols 0) (fun e t ih => ih)
    ?bound ?succ ?ofNat ?hAdd e t h
  case bound =>
    intro e c args target ts _ hne hfind hargs
    have hts : ts ≠ [] := by
      rintro rfl
      exact hne (List.forall₂_nil_right_iff.mp hargs)
    refine callsBound_app.mpr ⟨⟨hts, c, hfind⟩, fun t ht => ?_⟩
    obtain ⟨i, hi, rfl⟩ := List.getElem_of_mem ht
    exact hargs.get (hargs.length_eq ▸ hi) hi
  case succ => exact fun e x t _ _ ih => callsBound_add.mpr ⟨ih, callsBound_num symbols 1⟩
  case ofNat => exact fun e x n y t _ _ ih => ih
  case hAdd => exact fun e w x y z l r s t _ _ ihl ihr => callsBound_add.mpr ⟨ihl, ihr⟩

/-- The text of a term whose calls have arguments does not end in an empty pair of brackets. -/
theorem endsFilled_print {t : Term} (h : CallsBound symbols t.subterms) :
    Text.EndsFilled t.print.toList := by
  induction t using induct with
  | num n =>
    have hne : (toString n).toList ≠ [] := by
      obtain ⟨c, cs, hdigits, _⟩ := Numeral.exists_toString_eq n
      rw [hdigits]
      exact List.cons_ne_nil c cs
    obtain ⟨front, c, hdigits⟩ := List.eq_nil_or_concat _ |>.resolve_left hne
    have hdigit : c.isDigit = true := Numeral.isDigit_of_mem_toString (by rw [hdigits]; simp)
    refine .inl ⟨front, c, by rw [print, hdigits]; simp, ?_, ?_⟩
    · rintro rfl
      cases hdigit
    · rintro rfl
      cases hdigit
  | add l r _ ihr =>
    rw [print, String.toList_append]
    exact (ihr (callsBound_add.mp h).2).append_left _
  | app fn args ih =>
    obtain ⟨⟨hne, _⟩, hargs⟩ := callsBound_app.mp h
    obtain ⟨before, last, rfl⟩ := List.eq_nil_or_concat _ |>.resolve_left hne
    have hlast := ih last (by simp) (hargs last (by simp))
    obtain ⟨front, htexts⟩ := Text.exists_separated_concat ", " (before.map print) last.print
    -- the closing bracket stands behind the last argument, whose text does not end in an opening
    -- one
    rw [print, printAll_eq, List.map_concat, List.concat_eq_append, htexts]
    simp only [String.toList_append, ← List.append_assoc]
    exact (hlast.append_left _).concat_closing

end Term

namespace SymbolTable

/-- The first name that is bound to a target. -/
def nameOf (symbols : SymbolTable) (target : String) : String :=
  ((symbols.bindings.find? fun binding => binding.2 == target).map Prod.fst).getD target

private theorem find?_nameOf {symbols : SymbolTable} {c target : String}
    (h : symbols.find? c = some target) : symbols.find? (symbols.nameOf target) = some target := by
  obtain ⟨before, after, hbindings, _⟩ := List.lookup_eq_some_iff.mp h
  have hfound : (symbols.bindings.find? fun binding => binding.2 == target).isSome = true := by
    rw [List.find?_isSome]
    exact ⟨(c, target), by simp [hbindings], by simp⟩
  obtain ⟨⟨name, found⟩, hfind⟩ := Option.isSome_iff_exists.mp hfound
  obtain rfl : found = target := by simpa using List.find?_some hfind
  rw [nameOf, hfind]
  exact lookup_of_mem symbols.nodup_keys (List.mem_of_find?_eq_some hfind)

end SymbolTable

namespace Expr

/-- The expressions that are built of literals, sums and applications of bound constants. -/
inductive Arithmetic (symbols : SymbolTable) : Expr → Prop
  | natLit (n : Nat) : Arithmetic symbols (.natLit n)
  | natAdd {l r : Expr} : Arithmetic symbols l → Arithmetic symbols r →
      Arithmetic symbols (.natAdd l r)
  | app {c target : String} {args : List Expr} : symbols.find? c = some target →
      (∀ x ∈ args, Arithmetic symbols x) → Arithmetic symbols ((Expr.const c).apply args)

/-- The statements that are built of equations between such expressions and conjunctions. -/
inductive Equational (symbols : SymbolTable) : Expr → Prop
  | natEq {l r : Expr} : Arithmetic symbols l → Arithmetic symbols r →
      Equational symbols (.natEq l r)
  | and {l r : Expr} : Equational symbols l → Equational symbols r → Equational symbols (.and l r)

end Expr

namespace Term

variable {symbols : SymbolTable}

mutual

/-- An expression for a term: each call is one of a constant that is bound to the function. -/
def toExpr (symbols : SymbolTable) : Term → Expr
  | .num n => .natLit n
  | .add l r => .natAdd (l.toExpr symbols) (r.toExpr symbols)
  | .app fn args => (Expr.const (symbols.nameOf fn)).apply (toExprAll symbols args)

/-- Expressions for some terms. -/
def toExprAll (symbols : SymbolTable) : List Term → List Expr
  | [] => []
  | t :: ts => t.toExpr symbols :: toExprAll symbols ts

end

private theorem toExprAll_eq (symbols : SymbolTable) (args : List Term) :
    toExprAll symbols args = args.map (toExpr symbols) := by
  induction args with
  | nil => rfl
  | cons t ts ih => rw [toExprAll, ih, List.map_cons]

private theorem arithmetic_toExpr {t : Term} (h : CallsBound symbols t.subterms) :
    Expr.Arithmetic symbols (t.toExpr symbols) := by
  induction t using induct with
  | num n => exact .natLit n
  | add l r ihl ihr => exact .natAdd (ihl (callsBound_add.mp h).1) (ihr (callsBound_add.mp h).2)
  | app fn args ih =>
    obtain ⟨⟨_, c, hfind⟩, hargs⟩ := callsBound_app.mp h
    rw [toExpr, toExprAll_eq]
    refine .app (SymbolTable.find?_nameOf hfind) fun x hx => ?_
    obtain ⟨t, ht, rfl⟩ := List.mem_map.mp hx
    exact ih t ht (hargs t ht)

/-- Translating the expression for a term gives the term back. -/
theorem translates_toExpr {t : Term} (h : CallsBound symbols t.subterms)
    (hadd : symbols.find? Builtin.hAdd = none) : Translates symbols (t.toExpr symbols) t := by
  induction t using induct with
  | num n => exact .lit n
  | add l r ihl ihr =>
    exact .hAdd hadd (ihl (callsBound_add.mp h).1) (ihr (callsBound_add.mp h).2)
  | app fn args ih =>
    obtain ⟨⟨hne, c, hfind⟩, hargs⟩ := callsBound_app.mp h
    rw [toExpr, toExprAll_eq]
    refine .bound (by simpa using hne) (SymbolTable.find?_nameOf hfind) ?_
    rw [List.forall₂_map_left_iff, List.forall₂_same]
    exact fun t ht => ih t ht (hargs t ht)

end Term

namespace Formula

variable {symbols : SymbolTable} {f : Formula}

/-- The terms in a formula with all that they are built from. -/
def subterms : Formula → List Term
  | .eq l r => l.subterms ++ r.subterms
  | .and l r => l.subterms ++ r.subterms

private theorem mem_subterms_trans {u v : Term} (hv : v ∈ u.subterms) (hu : u ∈ f.subterms) :
    v ∈ f.subterms := by
  induction f with
  | eq l r =>
    rw [subterms, List.mem_append] at hu ⊢
    exact hu.imp (Term.mem_subterms_trans hv) (Term.mem_subterms_trans hv)
  | and l r ihl ihr =>
    rw [subterms, List.mem_append] at hu ⊢
    exact hu.imp ihl ihr

/-- What is translated calls bound functions only. -/
theorem callsBound_of_ofExpr {e : Expr} (h : ofExpr symbols e = .ok f) :
    Term.CallsBound symbols f.subterms := by
  refine ofExpr_induct (motive := fun _ f => Term.CallsBound symbols f.subterms) (fun e f ih => ih)
    ?eq ?and h
  case eq =>
    intro type l r s t hl hr
    exact Term.callsBound_append.mpr ⟨Term.callsBound_of_ofExpr hl, Term.callsBound_of_ofExpr hr⟩
  case and => exact fun l r f g ihl ihr => Term.callsBound_append.mpr ⟨ihl, ihr⟩

/-- An expression for a formula. -/
def toExpr (symbols : SymbolTable) : Formula → Expr
  | .eq l r => .natEq (l.toExpr symbols) (r.toExpr symbols)
  | .and l r => .and (l.toExpr symbols) (r.toExpr symbols)

private theorem equational_toExpr (h : Term.CallsBound symbols f.subterms) :
    Expr.Equational symbols (f.toExpr symbols) := by
  induction f with
  | eq l r =>
    obtain ⟨hl, hr⟩ := Term.callsBound_append.mp h
    exact .natEq (Term.arithmetic_toExpr hl) (Term.arithmetic_toExpr hr)
  | and l r ihl ihr =>
    obtain ⟨hl, hr⟩ := Term.callsBound_append.mp h
    exact .and (ihl hl) (ihr hr)

/-- Translating the expression for a formula gives the formula back. -/
theorem translates_toExpr (h : Term.CallsBound symbols f.subterms)
    (hadd : symbols.find? Builtin.hAdd = none) : Translates symbols (f.toExpr symbols) f := by
  induction f with
  | eq l r =>
    obtain ⟨hl, hr⟩ := Term.callsBound_append.mp h
    exact .eq (Term.translates_toExpr hl hadd) (Term.translates_toExpr hr hadd)
  | and l r ihl ihr =>
    obtain ⟨hl, hr⟩ := Term.callsBound_append.mp h
    exact .and (ihl hl) (ihr hr)

end Formula

/-- In what is translated, every call has arguments and is one of a function that a constant is
bound to, so that no text in it is a name with an empty pair of brackets. If the constant of sums is
not bound, everything of this kind is the translation of an expression that is built of literals,
sums and applications of bound constants, or of a statement that is built of equations between such
expressions and conjunctions. -/
theorem translation_image (symbols : SymbolTable) :
    (∀ e t, Term.ofExpr symbols e = .ok t →
      Term.CallsBound symbols t.subterms ∧ ∀ u ∈ t.subterms, ∀ fn, u.print ≠ fn ++ "()") ∧
    (∀ e f, Formula.ofExpr symbols e = .ok f →
      Term.CallsBound symbols f.subterms ∧ ∀ u ∈ f.subterms, ∀ fn, u.print ≠ fn ++ "()") ∧
    (symbols.find? Builtin.hAdd = none →
      (∀ t, Term.CallsBound symbols t.subterms →
        ∃ e, Expr.Arithmetic symbols e ∧ Term.ofExpr symbols e = .ok t) ∧
      ∀ f, Term.CallsBound symbols f.subterms →
        ∃ e, Expr.Equational symbols e ∧ Formula.ofExpr symbols e = .ok f) := by
  refine ⟨?_, ?_, fun hadd => ⟨fun t ht => ?_, fun f hf => ?_⟩⟩
  · intro e t h
    have hcalls := Term.callsBound_of_ofExpr h
    refine ⟨hcalls, fun u hu fn => ?_⟩
    have hu : Term.CallsBound symbols u.subterms :=
      fun fn args hmem => hcalls fn args (Term.mem_subterms_trans hmem hu)
    exact (Term.endsFilled_print hu).ne_empty_call fn
  · intro e f h
    have hcalls := Formula.callsBound_of_ofExpr h
    refine ⟨hcalls, fun u hu fn => ?_⟩
    have hu : Term.CallsBound symbols u.subterms :=
      fun fn args hmem => hcalls fn args (Formula.mem_subterms_trans hmem hu)
    exact (Term.endsFilled_print hu).ne_empty_call fn
  · exact ⟨t.toExpr symbols, Term.arithmetic_toExpr ht,
      Term.ofExpr_of_translates (Term.translates_toExpr ht hadd)⟩
  · exact ⟨f.toExpr symbols, Formula.equational_toExpr hf,
      Formula.ofExpr_of_translates (Formula.translates_toExpr hf hadd)⟩

/-- Functions that constants of arithmetic are bound to, one of them with an empty name. -/
theorem translation_image_arithmetic :
    let symbols :=
      ((SymbolTable.empty.insert "Nat.succ" "next").insert "OfNat.ofNat" "").insert "f" "next"
    let t := Term.app "next" [.add (.num 1) (.app "" [.num 2]), .app "next" [.num 3]]
    let f := Formula.and (.eq t (.num 0)) (.eq (.app "" [t]) t)
    symbols.find? Builtin.hAdd = none ∧ Term.CallsBound symbols f.subterms ∧
    (∃ e, Expr.Arithmetic symbols e ∧ Term.ofExpr symbols e = .ok t) ∧
    (∃ e, Expr.Equational symbols e ∧ Formula.ofExpr symbols e = .ok f) ∧
    ∀ fn, t.print ≠ fn ++ "()" := by
  intro symbols t f
  have hnum (n : Nat) : Term.CallsBound symbols (Term.num n).subterms :=
    Term.callsBound_num symbols n
  have hnext {args : List Term} (hne : args ≠ [])
      (h : ∀ t ∈ args, Term.CallsBound symbols t.subterms) :
      Term.CallsBound symbols (Term.app "next" args).subterms :=
    Term.callsBound_app.mpr ⟨⟨hne, "Nat.succ", rfl⟩, h⟩
  have hempty {t : Term} (h : Term.CallsBound symbols t.subterms) :
      Term.CallsBound symbols (Term.app "" [t]).subterms :=
    Term.callsBound_app.mpr ⟨⟨by simp, "OfNat.ofNat", rfl⟩, List.forall_mem_singleton.mpr h⟩
  have hsum := Term.callsBound_add.mpr ⟨hnum 1, hempty (hnum 2)⟩
  have hthree := hnext (List.cons_ne_nil _ _) (List.forall_mem_singleton.mpr (hnum 3))
  have ht : Term.CallsBound symbols t.subterms :=
    hnext (List.cons_ne_nil _ _)
      (List.forall_mem_cons.mpr ⟨hsum, List.forall_mem_singleton.mpr hthree⟩)
  have hf : Term.CallsBound symbols f.subterms :=
    Term.callsBound_append.mpr ⟨Term.callsBound_append.mpr ⟨ht, hnum 0⟩,
      Term.callsBound_append.mpr ⟨hempty ht, ht⟩⟩
  obtain ⟨hterms, _, hback⟩ := translation_image symbols
  obtain ⟨hbackTerm, hbackFormula⟩ := hback rfl
  obtain ⟨e, he, hofExpr⟩ := hbackTerm t ht
  exact ⟨rfl, hf, ⟨e, he, hofExpr⟩, hbackFormula f hf,
    (hterms e t hofExpr).2 t (by simp [t, Term.subterms])⟩

end PropExport
