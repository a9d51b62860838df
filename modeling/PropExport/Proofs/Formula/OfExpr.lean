import Mathlib.Data.List.Forall2
import PropExport.Formula.OfExpr
import PropExport.Proofs.Expr.Spine
import PropExport.Proofs.Results

/-!
# What translation accepts

The ways in which an expression comes to be a term and a statement comes to be a formula, one for
each rule. An argument about everything that is accepted goes through these cases.
-/

namespace PropExport

namespace Term

variable {symbols : SymbolTable}

/-- What a constant applied to translated arguments becomes. -/
inductive Built (symbols : SymbolTable) (c : String) :
    List (Except Unsupported Term) → Term → Prop
  | bound {target : String} (ts : List Term) (h : symbols.find? c = some target) :
      Built symbols c (ts.map .ok) (.app target ts)
  | succ (t : Term) (h : symbols.find? c = none) (hc : c = Builtin.natSucc) :
      Built symbols c [.ok t] (.add t (.num 1))
  | ofNat (x y : Except Unsupported Term) (t : Term) (h : symbols.find? c = none)
      (hc : c = Builtin.ofNat) : Built symbols c [x, .ok t, y] t
  | hAdd (w x y z : Except Unsupported Term) (l r : Term) (h : symbols.find? c = none)
      (hc : c = Builtin.hAdd) : Built symbols c [w, x, y, z, .ok l, .ok r] (.add l r)

private theorem all_eq_ok {results : List (Except Unsupported Term)} {ts : List Term}
    (h : all results = .ok ts) : results = ts.map .ok := by
  induction results generalizing ts with
  | nil => cases h; rfl
  | cons result results ih =>
    obtain ⟨t, rfl, hrest⟩ := exists_of_bind_eq_ok h
    obtain ⟨rest, hall, hpure⟩ := exists_of_bind_eq_ok hrest
    cases hpure
    rw [List.map_cons, ih hall]

private theorem built_of_ofConstApp {whole : Expr} {c : String}
    {results : List (Except Unsupported Term)} {t : Term}
    (h : ofConstApp symbols whole c results = .ok t) : Built symbols c results t := by
  unfold ofConstApp at h
  cases hfind : symbols.find? c with
  | some target =>
    rw [hfind] at h
    cases hall : all results with
    | error e => simp only [hall] at h; cases h
    | ok ts =>
      simp only [hall] at h
      cases h
      rw [all_eq_ok hall]
      exact .bound ts hfind
  | none =>
    rw [hfind] at h
    dsimp only at h
    split at h
    · split at h
      · next n hc =>
        obtain ⟨t, rfl, hpure⟩ := exists_of_bind_eq_ok h
        cases hpure
        exact .succ t hfind hc
      · cases h
    · split at h
      · next x n y hc =>
        obtain rfl := h
        exact .ofNat x y t hfind hc
      · cases h
    · split at h
      · next w x y z l r hc =>
        obtain ⟨l, rfl, hrest⟩ := exists_of_bind_eq_ok h
        obtain ⟨r, rfl, hpure⟩ := exists_of_bind_eq_ok hrest
        cases hpure
        exact .hAdd w x y z l r hfind hc
      · cases h
    · cases h

/-- Walking down a spine collects what its arguments become. -/
theorem ofSpine_eq (symbols : SymbolTable) (whole f : Expr)
    (rest : List (Except Unsupported Term)) :
    ofSpine symbols whole f rest =
      match f.spine with
      | (.const c, args) => ofConstApp symbols whole c (args.map (ofExpr symbols) ++ rest)
      | _ => .error (.application whole) := by
  induction f generalizing rest with
  | app f a ihf _ =>
    rw [ofSpine, ihf, Expr.spine_app]
    rcases f.spine with ⟨head, args⟩
    cases head <;> simp
  | _ => rfl

/-- An application is translated by its head constant and what its arguments become. -/
theorem ofExpr_app (symbols : SymbolTable) (f a : Expr) :
    ofExpr symbols (.app f a) =
      match (Expr.app f a).constApp? with
      | some (c, args) => ofConstApp symbols (.app f a) c (args.map (ofExpr symbols))
      | none => .error (.application (.app f a)) := by
  rw [ofExpr, ofSpine_eq, Expr.constApp?, Expr.spine_app]
  rcases f.spine with ⟨head, args⟩
  cases head <;> simp

private theorem forall₂_of_map_eq {args : List Expr} {ts : List Term}
    (h : args.map (ofExpr symbols) = ts.map .ok) :
    List.Forall₂ (fun x t => ofExpr symbols x = .ok t) args ts := by
  have hrefl : List.Forall₂ Eq (args.map (ofExpr symbols)) (ts.map .ok) := by
    rw [h, List.forall₂_eq_eq_eq]
  rwa [List.forall₂_map_left_iff, List.forall₂_map_right_iff] at hrefl

section Induct

variable {motive : Expr → Term → Prop} (lit : ∀ n, motive (.lit (.nat n)) (.num n))
  (zero : motive (.const Builtin.natZero) (.num 0))
  (mdata : ∀ e t, motive e t → motive (.mdata e) t)
  (bound : ∀ e c args target ts, e.constApp? = some (c, args) → args ≠ [] →
    symbols.find? c = some target → List.Forall₂ motive args ts → motive e (.app target ts))
  (succ : ∀ e x t, e.constApp? = some (Builtin.natSucc, [x]) →
    symbols.find? Builtin.natSucc = none → motive x t → motive e (.add t (.num 1)))
  (ofNat : ∀ e x n y t, e.constApp? = some (Builtin.ofNat, [x, n, y]) →
    symbols.find? Builtin.ofNat = none → motive n t → motive e t)
  (hAdd : ∀ e w x y z l r s t, e.constApp? = some (Builtin.hAdd, [w, x, y, z, l, r]) →
    symbols.find? Builtin.hAdd = none → motive l s → motive r t → motive e (.add s t))

include bound succ ofNat hAdd in
/-- The rules for the application of a constant. -/
private theorem motive_of_built {e : Expr} {c : String} {args : List Expr} {t : Term}
    (happ : e.constApp? = some (c, args)) (hne : args ≠ [])
    (ih : ∀ x ∈ args, ∀ t, ofExpr symbols x = .ok t → motive x t)
    (h : Built symbols c (args.map (ofExpr symbols)) t) : motive e t := by
  generalize hresults : args.map (ofExpr symbols) = results at h
  cases h with
  | bound ts hfind =>
    have hargs := (List.forall₂_and_left _ _).mpr ⟨ih, forall₂_of_map_eq hresults⟩
    exact bound e c args _ ts happ hne hfind (hargs.imp fun x t hx => hx.1 t hx.2)
  | succ t hfind hc =>
    subst hc
    obtain ⟨x, rfl, hx⟩ : ∃ x, args = [x] ∧ ofExpr symbols x = .ok t := by
      simpa [List.map_eq_cons_iff] using hresults
    exact succ e x t happ hfind (ih x (by simp) t hx)
  | ofNat x y t hfind hc =>
    subst hc
    obtain ⟨x, n, y, rfl, hn⟩ : ∃ x n y, args = [x, n, y] ∧ ofExpr symbols n = .ok t := by
      simp only [List.map_eq_cons_iff, List.map_eq_nil_iff] at hresults
      obtain ⟨x, _, rfl, _, n, _, rfl, hn, y, _, rfl, _, rfl⟩ := hresults
      exact ⟨x, n, y, rfl, hn⟩
    exact ofNat e x n y t happ hfind (ih n (by simp) t hn)
  | hAdd w x y z l r hfind hc =>
    subst hc
    simp only [List.map_eq_cons_iff, List.map_eq_nil_iff] at hresults
    obtain ⟨w, _, rfl, _, x, _, rfl, _, y, _, rfl, _, z, _, rfl, _, el, _, rfl, hl, er, _, rfl, hr,
      rfl⟩ := hresults
    exact hAdd e w x y z el er l r happ hfind (ih el (by simp) l hl) (ih er (by simp) r hr)

include lit zero mdata bound succ ofNat hAdd in
/-- To show something of every expression and the term it becomes, go through the rules of
translation. -/
theorem ofExpr_induct : (e : Expr) → (t : Term) → ofExpr symbols e = .ok t → motive e t
  | .lit (.nat n), t, h => by
    obtain rfl : .num n = t := by simpa [ofExpr] using h
    exact lit n
  | .mdata e, t, h => by
    rw [ofExpr] at h
    exact mdata e t (ofExpr_induct e t h)
  | .const c, t, h => by
    by_cases hc : c = Builtin.natZero
    · subst hc
      obtain rfl : .num 0 = t := by simpa [ofExpr] using h
      exact zero
    · simp [ofExpr, hc] at h
  | .app f a, t, h => by
    rw [ofExpr_app] at h
    cases happ : (Expr.app f a).constApp? with
    | none => rw [happ] at h; cases h
    | some found =>
      obtain ⟨c, args⟩ := found
      rw [happ] at h
      obtain rfl : (Expr.app f a).args = args :=
        congrArg Prod.snd (Expr.constApp?_eq_some_iff.mp happ)
      exact motive_of_built bound succ ofNat hAdd happ (Expr.args_app_ne_nil f a)
        (fun x hx t => ofExpr_induct x t) (built_of_ofConstApp h)
  | .lit (.str s), t, h => by simp [ofExpr] at h
  | .bvar i, t, h => by simp [ofExpr] at h
  | .sort n, t, h => by simp [ofExpr] at h
  | .lam x b, t, h => by simp [ofExpr] at h
  | .pi x b, t, h => by simp [ofExpr] at h
termination_by e => sizeOf e
decreasing_by
  · decreasing_tactic
  · exact Expr.sizeOf_lt_of_mem_args hx

end Induct

end Term

namespace Formula

variable {symbols : SymbolTable} {motive : Expr → Formula → Prop}

/-- To show something of every statement and the formula it becomes, go through the rules of
translation. -/
theorem ofExpr_induct (mdata : ∀ e f, motive e f → motive (.mdata e) f)
    (eq : ∀ x l r s t, Term.ofExpr symbols l = .ok s → Term.ofExpr symbols r = .ok t →
      motive (.app (.app (.app (.const Builtin.eq) x) l) r) (.eq s t))
    (and : ∀ l r f g, motive l f → motive r g →
      motive (.app (.app (.const Builtin.and) l) r) (.and f g))
    {e : Expr} {f : Formula} (h : ofExpr symbols e = .ok f) : motive e f := by
  fun_induction ofExpr symbols e generalizing f with
  | case1 e ih => exact mdata e f (ih h)
  | case2 l r ihl ihr =>
    obtain ⟨fl, hl, h⟩ := exists_of_bind_eq_ok h
    obtain ⟨fr, hr, h⟩ := exists_of_bind_eq_ok h
    cases h
    exact and l r fl fr (ihl hl) (ihr hr)
  | case4 x l r =>
    obtain ⟨s, hl, h⟩ := exists_of_bind_eq_ok h
    obtain ⟨t, hr, h⟩ := exists_of_bind_eq_ok h
    cases h
    exact eq x l r s t hl hr
  | case3 | case5 | case6 | case7 => cases h

end Formula

end PropExport
