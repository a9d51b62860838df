import PropExport.Proofs.Expr.Metadata
import PropExport.Proofs.Formula.Rules

/-!
# Metadata in statements

What metadata can change in a translation. Where an expression is accepted, it is accepted with the
same result without its metadata. Where it is refused although it would be accepted without its
metadata, the refusal names an application whose function is wrapped in metadata: the way to the
first expression that no rule covers is the same with and without metadata, so that expression would
be covered if its own metadata did not stand in the way.
-/

namespace PropExport

variable {symbols : SymbolTable} {e : Expr}

/-- An accepted term is the same without metadata. -/
theorem Term.ofExpr_eraseMeta {t : Term} (h : Term.ofExpr symbols e = .ok t) :
    Term.ofExpr symbols e.eraseMeta = .ok t := by
  refine Term.ofExpr_of_translates ?_
  refine Term.ofExpr_induct (motive := fun e t => Translates symbols e.eraseMeta t) .lit .zero
    (fun e t ih => ih) ?bound ?succ ?ofNat ?hAdd e t h
  case bound =>
    intro e c args target ts happ hne hfind hargs
    rw [Expr.eq_apply_of_constApp? happ, Expr.eraseMeta_apply]
    exact .bound (by simpa using hne) hfind (List.forall₂_map_left_iff.mpr hargs)
  case succ =>
    intro e x t happ hfind hx
    rw [Expr.eq_apply_of_constApp? happ, Expr.eraseMeta_apply]
    exact .succ hfind hx
  case ofNat =>
    intro e type n inst t happ hfind hn
    rw [Expr.eq_apply_of_constApp? happ, Expr.eraseMeta_apply]
    exact .ofNat hfind hn
  case hAdd =>
    intro e α β γ inst l r s t happ hfind hl hr
    rw [Expr.eq_apply_of_constApp? happ, Expr.eraseMeta_apply]
    exact .hAdd hfind hl hr

/-- An accepted statement is the same without metadata. -/
theorem Formula.ofExpr_eraseMeta {f : Formula} (h : Formula.ofExpr symbols e = .ok f) :
    Formula.ofExpr symbols e.eraseMeta = .ok f := by
  refine Formula.ofExpr_induct (motive := fun e f => Formula.ofExpr symbols e.eraseMeta = .ok f)
    (fun e f ih => ih) ?eq ?and h
  case eq =>
    intro type l r s t hl hr
    have hl := Term.translates_of_ofExpr (Term.ofExpr_eraseMeta hl)
    have hr := Term.translates_of_ofExpr (Term.ofExpr_eraseMeta hr)
    exact Formula.ofExpr_of_translates (.eq hl hr)
  case and =>
    intro l r f g ihl ihr
    exact Formula.ofExpr_of_translates
      (.and (Formula.translates_of_ofExpr ihl) (Formula.translates_of_ofExpr ihr))

namespace Role

variable {role last : Role} {s : Expr} {parts : List (Role × Expr)}

/-- Where a rule covers an expression, it is accepted exactly if its parts are. -/
theorem Covers.accepts_iff (h : Covers symbols role e parts) :
    role.Accepts symbols e ↔ ∀ part ∈ parts, part.1.Accepts symbols part.2 := by
  rw [← check_eq_ok_iff, check_of_covers h, forM_eq_ok_iff]
  exact forall₂_congr fun part _ => check_eq_ok_iff

private theorem exists_covers_of_accepts (h : role.Accepts symbols e) :
    ∃ parts, Covers symbols role e parts := by
  by_contra hnone
  have hrefused := check_of_not_covers fun parts hparts => hnone ⟨parts, hparts⟩
  rw [check_eq_ok_iff.mpr h] at hrefused
  cases hrefused

/-- Unless it is the rule for metadata, the rule that covers an expression covers it without
metadata as well, and then looks at the parts without metadata. -/
theorem Covers.eraseMeta (h : Covers symbols role e parts) :
    (∃ inner, e = .mdata inner ∧ parts = [(role, inner)]) ∨
    Covers symbols role e.eraseMeta (parts.map fun part => (part.1, part.2.eraseMeta)) := by
  cases h with
  | lit n => exact .inr (.lit n)
  | zero => exact .inr .zero
  | mdata role inner => exact .inl ⟨inner, rfl, rfl⟩
  | @bound c target args hne hfind =>
    have hparts : (args.map (Role.term, ·)).map (fun part => (part.1, part.2.eraseMeta)) =
        (args.map Expr.eraseMeta).map (Role.term, ·) := by
      simp
    rw [Expr.eraseMeta_apply, hparts]
    exact .inr (.bound (by simpa using hne) hfind)
  | hAdd α β γ inst l r hfind => exact .inr (.hAdd _ _ _ _ _ _ hfind)
  | succ n hfind => exact .inr (.succ _ hfind)
  | ofNat type n inst hfind => exact .inr (.ofNat _ _ _ hfind)
  | eq type l r => exact .inr (.eq _ _ _)
  | and l r => exact .inr (.and _ _)

/-- What a rule looks at is accepted without metadata, if the whole is. -/
theorem Covers.accepts_eraseMeta (h : Covers symbols role e parts)
    (haccepts : role.Accepts symbols e.eraseMeta) {part : Role × Expr} (hpart : part ∈ parts) :
    part.1.Accepts symbols part.2.eraseMeta := by
  rcases h.eraseMeta with ⟨inner, rfl, rfl⟩ | herased
  · obtain rfl := List.mem_singleton.mp hpart
    exact haccepts
  · exact herased.accepts_iff.mp haccepts _ (List.mem_map_of_mem hpart)

/-- A rule that covers an expression without metadata covers the expression itself, unless there is
metadata around the whole of it or around its function. -/
theorem Covers.of_eraseMeta (h : Covers symbols role e.eraseMeta parts)
    (hmdata : ∀ inner, e ≠ .mdata inner) (hwraps : ¬ e.WrapsFunction) :
    ∃ parts, Covers symbols role e parts := by
  have happly {c : String} {args : List Expr} (heq : e.eraseMeta = (Expr.const c).apply args) :=
    Expr.exists_apply_of_eraseMeta_eq heq hmdata hwraps
  generalize herased : e.eraseMeta = erased at h happly
  cases h with
  | lit n =>
    cases e with
    | lit value =>
      cases herased
      exact ⟨[], .lit n⟩
    | mdata inner => exact absurd rfl (hmdata inner)
    | _ => cases herased
  | zero =>
    have hbare : Expr.const Builtin.natZero = (Expr.const Builtin.natZero).apply [] := rfl
    obtain ⟨args, rfl, hargs⟩ := happly hbare
    obtain rfl := List.map_eq_nil_iff.mp hargs
    exact ⟨[], .zero⟩
  | mdata role inner => exact absurd herased (e.eraseMeta_ne_mdata inner)
  | bound hne hfind =>
    obtain ⟨args, rfl, rfl⟩ := happly rfl
    exact ⟨_, .bound (by simpa using hne) hfind⟩
  | hAdd α β γ inst l r hfind =>
    obtain ⟨args, rfl, hargs⟩ := happly rfl
    simp only [List.map_eq_cons_iff, List.map_eq_nil_iff] at hargs
    obtain ⟨α, _, rfl, _, β, _, rfl, _, γ, _, rfl, _, inst, _, rfl, _, l, _, rfl, _, r, _, rfl, _,
      rfl⟩ := hargs
    exact ⟨_, .hAdd α β γ inst l r hfind⟩
  | succ n hfind =>
    obtain ⟨args, rfl, hargs⟩ := happly rfl
    simp only [List.map_eq_cons_iff, List.map_eq_nil_iff] at hargs
    obtain ⟨n, _, rfl, _, rfl⟩ := hargs
    exact ⟨_, .succ n hfind⟩
  | ofNat type n inst hfind =>
    obtain ⟨args, rfl, hargs⟩ := happly rfl
    simp only [List.map_eq_cons_iff, List.map_eq_nil_iff] at hargs
    obtain ⟨type, _, rfl, _, n, _, rfl, _, inst, _, rfl, _, rfl⟩ := hargs
    exact ⟨_, .ofNat type n inst hfind⟩
  | eq type l r =>
    obtain ⟨args, rfl, hargs⟩ := happly rfl
    simp only [List.map_eq_cons_iff, List.map_eq_nil_iff] at hargs
    obtain ⟨type, _, rfl, _, l, _, rfl, _, r, _, rfl, _, rfl⟩ := hargs
    exact ⟨_, .eq type l r⟩
  | and l r =>
    obtain ⟨args, rfl, hargs⟩ := happly rfl
    simp only [List.map_eq_cons_iff, List.map_eq_nil_iff] at hargs
    obtain ⟨l, _, rfl, _, r, _, rfl, _, rfl⟩ := hargs
    exact ⟨_, .and l r⟩

/-- If no rule covers an expression although it would be accepted without metadata, its function is
wrapped. -/
theorem wrapsFunction_of_not_covers (h : ∀ parts, ¬ Covers symbols role e parts)
    (haccepts : role.Accepts symbols e.eraseMeta) : e.WrapsFunction := by
  have hmdata : ∀ inner, e ≠ .mdata inner := by
    rintro inner rfl
    exact h _ (.mdata role inner)
  obtain ⟨parts, hparts⟩ := exists_covers_of_accepts haccepts
  by_contra hwraps
  obtain ⟨found, hfound⟩ := hparts.of_eraseMeta hmdata hwraps
  exact h found hfound

/-- On the way to the first expression that no rule covers, everything is accepted without
metadata. -/
theorem FirstUncovered.wrapsFunction (h : FirstUncovered symbols role e last s)
    (haccepts : role.Accepts symbols e.eraseMeta) : s.WrapsFunction := by
  induction h with
  | here hnone => exact wrapsFunction_of_not_covers hnone haccepts
  | part hcovers _ _ ih =>
    exact ih (hcovers.accepts_eraseMeta haccepts (List.mem_append_right _ List.mem_cons_self))

private theorem uncovered_of_wrapsFunction (h : s.WrapsFunction) :
    uncovered s = .application s := by
  obtain ⟨f, a, wrapped, happ, hhead⟩ := h
  refine (uncovered_eq_iff s).1.mpr ⟨⟨f, a, happ⟩, fun c hc => ?_⟩
  rw [hhead] at hc
  cases hc

/-- What would be accepted without metadata is accepted, or it is refused at an application whose
function is wrapped. -/
theorem accepts_or_refuses_of_eraseMeta (h : role.Accepts symbols e.eraseMeta) :
    role.Accepts symbols e ∨
    ∃ s ∈ e.subexpressions, s.WrapsFunction ∧ role.Refuses symbols (.application s) e := by
  cases hcheck : role.check symbols e with
  | ok u => exact .inl (check_eq_ok_iff.mp hcheck)
  | error error =>
    obtain ⟨last, s, hfirst, rfl⟩ := exists_firstUncovered hcheck
    have hwraps := hfirst.wrapsFunction h
    rw [uncovered_of_wrapsFunction hwraps] at hcheck
    exact .inr ⟨s, hfirst.mem_subexpressions, hwraps, check_eq_error_iff.mp hcheck⟩

end Role

/-- A term that is accepted without metadata is accepted, unless the function of an application is
wrapped. -/
theorem Term.ofExpr_of_eraseMeta {t : Term} (h : Term.ofExpr symbols e.eraseMeta = .ok t) :
    Term.ofExpr symbols e = .ok t ∨
    ∃ s ∈ e.subexpressions, s.WrapsFunction ∧ Term.ofExpr symbols e = .error (.application s) := by
  have haccepts : Role.term.Accepts symbols e.eraseMeta := ⟨t, Term.translates_of_ofExpr h⟩
  rcases Role.accepts_or_refuses_of_eraseMeta haccepts with ⟨found, hfound⟩ | hrefuses
  · have hok := Term.ofExpr_of_translates hfound
    have hsame : found = t := Except.ok.inj ((Term.ofExpr_eraseMeta hok).symm.trans h)
    exact .inl (hsame ▸ hok)
  · exact .inr hrefuses

/-- A statement that is accepted without metadata is accepted, unless the function of an application
is wrapped. -/
theorem Formula.ofExpr_of_eraseMeta {f : Formula} (h : Formula.ofExpr symbols e.eraseMeta = .ok f) :
    Formula.ofExpr symbols e = .ok f ∨
    ∃ s ∈ e.subexpressions, s.WrapsFunction ∧
      Formula.ofExpr symbols e = .error (.application s) := by
  have haccepts : Role.formula.Accepts symbols e.eraseMeta := ⟨f, Formula.translates_of_ofExpr h⟩
  rcases Role.accepts_or_refuses_of_eraseMeta haccepts with ⟨found, hfound⟩ | hrefuses
  · have hok := Formula.ofExpr_of_translates hfound
    have hsame : found = f := Except.ok.inj ((Formula.ofExpr_eraseMeta hok).symm.trans h)
    exact .inl (hsame ▸ hok)
  · exact .inr hrefuses

/-- An expression that is accepted is accepted with the same result without metadata. One that is
accepted without metadata is accepted with the same result as it is, or it is refused because in one
of its parts the function of an application is wrapped in metadata, and the refusal names that
application. -/
theorem translation_eraseMeta (symbols : SymbolTable) (e : Expr) :
    (∀ t, Term.ofExpr symbols e = .ok t → Term.ofExpr symbols e.eraseMeta = .ok t) ∧
    (∀ f, Formula.ofExpr symbols e = .ok f → Formula.ofExpr symbols e.eraseMeta = .ok f) ∧
    (∀ t, Term.ofExpr symbols e.eraseMeta = .ok t →
      Term.ofExpr symbols e = .ok t ∨
      ∃ s ∈ e.subexpressions, s.WrapsFunction ∧ Term.ofExpr symbols e = .error (.application s)) ∧
    ∀ f, Formula.ofExpr symbols e.eraseMeta = .ok f →
      Formula.ofExpr symbols e = .ok f ∨
      ∃ s ∈ e.subexpressions, s.WrapsFunction ∧
        Formula.ofExpr symbols e = .error (.application s) :=
  ⟨fun _ => Term.ofExpr_eraseMeta, fun _ => Formula.ofExpr_eraseMeta,
    fun _ => Term.ofExpr_of_eraseMeta, fun _ => Formula.ofExpr_of_eraseMeta⟩

/-- Metadata around a statement, a summand and an ignored type does not matter, but around a
function it does. -/
theorem translation_eraseMeta_wrapped :
    let symbols := SymbolTable.empty.insert "f" "F"
    let sum := Expr.natAdd (.mdata (.nat 1)) (.mdata (.mdata .natZero))
    let plain := Expr.mdata (.eq (.mdata .natType) sum ((Expr.const "f").apply [.mdata sum]))
    let call := Expr.app (.mdata (.app (.const "f") sum)) (.nat 2)
    let wrapped := Expr.and plain (.natEq sum call)
    let term := Term.add (.num 1) (.num 0)
    Formula.ofExpr symbols plain = .ok (.eq term (.app "F" [term])) ∧
    Formula.ofExpr symbols plain.eraseMeta = .ok (.eq term (.app "F" [term])) ∧
    Formula.ofExpr symbols wrapped.eraseMeta =
      .ok (.and (.eq term (.app "F" [term])) (.eq term (.app "F" [term, .num 2]))) ∧
    ∃ s ∈ wrapped.subexpressions, s.WrapsFunction ∧
      Formula.ofExpr symbols wrapped = .error (.application s) := by
  intro symbols sum plain call wrapped term
  have hplain : Formula.ofExpr symbols plain = .ok (.eq term (.app "F" [term])) := rfl
  have herased : Formula.ofExpr symbols wrapped.eraseMeta =
    .ok (.and (.eq term (.app "F" [term])) (.eq term (.app "F" [term, .num 2]))) := rfl
  have hrefused : Formula.ofExpr symbols wrapped = .error (.application call) := rfl
  refine ⟨hplain, (translation_eraseMeta symbols plain).2.1 _ hplain, herased, ?_⟩
  rcases (translation_eraseMeta symbols wrapped).2.2.2 _ herased with hok | hwraps
  · rw [hrefused] at hok
    cases hok
  · exact hwraps

end PropExport
