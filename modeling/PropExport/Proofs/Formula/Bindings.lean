import PropExport.Proofs.Formula.Rules

/-!
# Translation under other bindings

How far a translation depends on the table of symbols. Bindings that are added to a table leave
every accepted result as it is, unless they capture a constant of arithmetic whose own rule was used
before. And a table is looked at only for the constants that stand at the heads of applications, so
tables that agree on these give the same result, be it accepted or refused.
-/

namespace PropExport

/-- A table that binds all that another one binds to the same targets, and that leaves the constants
of arithmetic unbound where the other one does. -/
structure SymbolTable.Enlarges (more symbols : SymbolTable) : Prop where
  find?_of_some : ∀ {c target}, symbols.find? c = some target → more.find? c = some target
  find?_of_none : ∀ c ∈ [Builtin.hAdd, Builtin.natSucc, Builtin.ofNat],
    symbols.find? c = none → more.find? c = none

/-- Every table enlarges itself. -/
theorem SymbolTable.Enlarges.refl (symbols : SymbolTable) : symbols.Enlarges symbols :=
  ⟨fun h => h, fun _ _ h => h⟩

/-- Binding one more name enlarges a table. -/
theorem SymbolTable.Enlarges.insert {more symbols : SymbolTable} (h : more.Enlarges symbols)
    {key : String} (hunbound : symbols.find? key = none)
    (hkey : key ∉ [Builtin.hAdd, Builtin.natSucc, Builtin.ofNat]) (target : String) :
    (more.insert key target).Enlarges symbols where
  find?_of_some := by
    intro c target' hc
    have hne : c ≠ key := by
      rintro rfl
      rw [hunbound] at hc
      cases hc
    rw [SymbolTable.find?_insert, if_neg hne]
    exact h.find?_of_some hc
  find?_of_none := by
    intro c hmem hc
    have hne : c ≠ key := by
      rintro rfl
      exact hkey hmem
    rw [SymbolTable.find?_insert, if_neg hne]
    exact h.find?_of_none c hmem hc

/-- A constant stands at the head of an application in an expression. -/
def Expr.Applies (e : Expr) (c : String) : Prop :=
  ∃ f a, Expr.app f a ∈ e.subexpressions ∧ (Expr.app f a).head = .const c

/-- What an expression applies is applied under metadata too. -/
theorem Expr.Applies.mdata {inner : Expr} {c : String} (h : inner.Applies c) :
    (Expr.mdata inner).Applies c := by
  obtain ⟨f, a, hmem, hhead⟩ := h
  exact ⟨f, a, List.mem_cons_of_mem _ hmem, hhead⟩

private theorem Expr.Applies.of_mem_args {e arg : Expr} {c : String} (h : arg.Applies c)
    (harg : arg ∈ e.args) : e.Applies c := by
  obtain ⟨f, a, hmem, hhead⟩ := h
  exact ⟨f, a, mem_subexpressions_trans hmem (mem_subexpressions_of_mem_args harg), hhead⟩

variable {symbols more : SymbolTable} {e : Expr}

namespace Term

/-- An accepted term stays the same in a larger table. -/
theorem ofExpr_of_enlarges (hmore : more.Enlarges symbols) {t : Term}
    (h : ofExpr symbols e = .ok t) : ofExpr more e = .ok t := by
  refine ofExpr_of_translates ?_
  refine ofExpr_induct (motive := Translates more) .lit .zero (fun e t => .mdata)
    ?bound ?succ ?ofNat ?hAdd e t h
  case bound =>
    intro e c args target ts happ hne hfind hargs
    rw [Expr.eq_apply_of_constApp? happ]
    exact .bound hne (hmore.find?_of_some hfind) hargs
  case succ =>
    intro e n t happ hfind hn
    rw [Expr.eq_apply_of_constApp? happ]
    exact .succ (hmore.find?_of_none _ (by simp) hfind) hn
  case ofNat =>
    intro e type n inst t happ hfind hn
    rw [Expr.eq_apply_of_constApp? happ]
    exact .ofNat (hmore.find?_of_none _ (by simp) hfind) hn
  case hAdd =>
    intro e α β γ inst l r s t happ hfind hl hr
    rw [Expr.eq_apply_of_constApp? happ]
    exact .hAdd (hmore.find?_of_none _ (by simp) hfind) hl hr

/-- The rules for an application look up its constant only. -/
theorem ofConstApp_congr {c : String} (h : symbols.find? c = more.find? c) (whole : Expr)
    (results : List (Except Unsupported Term)) :
    ofConstApp symbols whole c results = ofConstApp more whole c results := by
  unfold ofConstApp
  rw [h]

/-- Tables that agree on the constants at the heads of applications give the same result. -/
theorem ofExpr_congr (h : ∀ c, e.Applies c → symbols.find? c = more.find? c) :
    ofExpr symbols e = ofExpr more e := by
  -- an application is translated through all its arguments at once, so the induction is on the size
  induction hsize : sizeOf e using Nat.strongRecOn generalizing e with
  | ind size ih =>
    subst hsize
    cases e with
    | mdata inner =>
      rw [ofExpr, ofExpr]
      exact ih _ (by simp) (fun c hc => h c hc.mdata) rfl
    | app f a =>
      rw [ofExpr_app, ofExpr_app]
      cases happ : (Expr.app f a).constApp? with
      | none => rfl
      | some found =>
        obtain ⟨c, args⟩ := found
        have hspine := Expr.constApp?_eq_some_iff.mp happ
        have hargs : (Expr.app f a).args = args := congrArg Prod.snd hspine
        have hhead : (Expr.app f a).head = .const c := by rw [Expr.head_eq, hspine]
        have hresults : args.map (ofExpr symbols) = args.map (ofExpr more) := by
          refine List.map_congr_left fun x hx => ?_
          rw [← hargs] at hx
          exact ih _ (Expr.sizeOf_lt_of_mem_args hx) (fun c hc => h c (hc.of_mem_args hx)) rfl
        have hfind := h c ⟨f, a, Expr.mem_subexpressions_self _, hhead⟩
        dsimp only
        rw [hresults, ofConstApp_congr hfind]
    | lit value => cases value <;> rfl
    | _ => rfl

end Term

namespace Formula

/-- An accepted statement stays the same in a larger table. -/
theorem ofExpr_of_enlarges (hmore : more.Enlarges symbols) {f : Formula}
    (h : ofExpr symbols e = .ok f) : ofExpr more e = .ok f := by
  refine ofExpr_of_translates ?_
  refine ofExpr_induct (motive := Translates more) (fun e f => .mdata) ?eq ?and h
  case eq =>
    intro type l r s t hl hr
    have hl := Term.translates_of_ofExpr (Term.ofExpr_of_enlarges hmore hl)
    have hr := Term.translates_of_ofExpr (Term.ofExpr_of_enlarges hmore hr)
    exact .eq hl hr
  case and => exact fun l r f g hl hr => .and hl hr

/-- Tables that agree on the constants at the heads of applications give the same result. -/
theorem ofExpr_congr (h : ∀ c, e.Applies c → symbols.find? c = more.find? c) :
    ofExpr symbols e = ofExpr more e := by
  fun_induction ofExpr symbols e with
  | case1 inner ih =>
    rw [ofExpr]
    exact ih fun c hc => h c hc.mdata
  | case2 l r ihl ihr =>
    have hargs : (Expr.app (.app (.const Builtin.and) l) r).args = [l, r] := rfl
    have hl := ihl fun c hc => h c (hc.of_mem_args (by simp [hargs]))
    have hr := ihr fun c hc => h c (hc.of_mem_args (by simp [hargs]))
    rw [ofExpr, if_pos rfl, hl, hr]
  | case4 type l r =>
    have hargs : (Expr.app (.app (.app (.const Builtin.eq) type) l) r).args = [type, l, r] := rfl
    have hl := Term.ofExpr_congr (e := l) fun c hc => h c (hc.of_mem_args (by simp [hargs]))
    have hr := Term.ofExpr_congr (e := r) fun c hc => h c (hc.of_mem_args (by simp [hargs]))
    rw [ofExpr, if_pos rfl, hl, hr]
  | case3 c l r hc => rw [ofExpr, if_neg hc]
  | case5 c type l r hc => rw [ofExpr, if_neg hc]
  | case6 f a hand heq => rw [ofExpr] <;> assumption
  | case7 e hmdata hand heq happ => rw [ofExpr] <;> assumption

end Formula

/-- A larger table gives every accepted expression the same result. Two tables that agree on the
constants at the heads of the applications in an expression give it the same result, accepted or
refused. -/
theorem translation_under_bindings (symbols more : SymbolTable) :
    (more.Enlarges symbols → ∀ e,
      (∀ t, Term.ofExpr symbols e = .ok t → Term.ofExpr more e = .ok t) ∧
      ∀ f, Formula.ofExpr symbols e = .ok f → Formula.ofExpr more e = .ok f) ∧
    ∀ e, (∀ c, e.Applies c → symbols.find? c = more.find? c) →
      Term.ofExpr symbols e = Term.ofExpr more e ∧
      Formula.ofExpr symbols e = Formula.ofExpr more e :=
  ⟨fun hmore _ =>
    ⟨fun _ => Term.ofExpr_of_enlarges hmore, fun _ => Formula.ofExpr_of_enlarges hmore⟩,
    fun _ h => ⟨Term.ofExpr_congr h, Formula.ofExpr_congr h⟩⟩

/-- Binding the constants of equations and conjunctions and one more function, where a constant of
arithmetic was bound before: an accepted statement stays the same, and an unknown function is
refused as before. -/
theorem translation_under_bindings_aligned :
    let symbols := (SymbolTable.empty.insert "f" "F").insert "Nat.succ" "next"
    let more := ((symbols.insert "Eq" "equal").insert "And" "both").insert "g" "G"
    let call := (Expr.const "f").apply [.natSucc (.nat 1), .natAdd .natZero (.nat 2)]
    let e := Expr.and (.natEq call call) (.natEq (.nat 3) call)
    let call' := Term.app "F" [.app "next" [.num 1], .add (.num 0) (.num 2)]
    let f := Formula.and (.eq call' call') (.eq (.num 3) call')
    let unknown := (Expr.const "h").apply [.natSucc (.bvar 0)]
    more.Enlarges symbols ∧ Formula.ofExpr symbols e = .ok f ∧ Formula.ofExpr more e = .ok f ∧
    (∀ c, unknown.Applies c → symbols.find? c = more.find? c) ∧
    Term.ofExpr symbols unknown = .error (.constantApplication unknown) ∧
    Term.ofExpr symbols unknown = Term.ofExpr more unknown := by
  intro symbols more call e call' f unknown
  have hmore : more.Enlarges symbols :=
    (((SymbolTable.Enlarges.refl symbols).insert rfl (by decide) "equal").insert rfl (by decide)
      "both").insert rfl (by decide) "G"
  have hagree : ∀ c, unknown.Applies c → symbols.find? c = more.find? c := by
    rintro c ⟨f, a, hmem, hhead⟩
    have happs : f = .const "h" ∨ f = .const "Nat.succ" := by
      simp only [unknown, Expr.apply, List.foldl_cons, List.foldl_nil, Expr.natSucc,
        Expr.subexpressions, List.cons_append, List.nil_append, List.mem_cons, Expr.app.injEq,
        reduceCtorEq, List.not_mem_nil, or_false, false_or] at hmem
      exact hmem.imp And.left And.left
    rcases happs with rfl | rfl <;> cases hhead <;> rfl
  obtain ⟨hkept, hsame⟩ := translation_under_bindings symbols more
  exact ⟨hmore, rfl, (hkept hmore e).2 f rfl, hagree, rfl, (hsame unknown hagree).1⟩

end PropExport
