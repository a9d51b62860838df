import PropExport.Proofs.Formula.OfExpr

/-!
# The rules of translation

Which expressions are terms and which statements are formulas, said by rules and not by a
computation. Translation accepts exactly what the rules relate. Where it fails, it walks along the
positions that rules look at, from left to right, to the first expression that no rule covers, and
reports that one.
-/

namespace PropExport

namespace Term

variable {symbols : SymbolTable}

/-- The rules for terms. An aligned constant takes all its arguments along; the constants of
arithmetic have rules only where they are not aligned, and only at their full number of
arguments. -/
inductive Translates (symbols : SymbolTable) : Expr → Term → Prop
  | lit (n : Nat) : Translates symbols (.lit (.nat n)) (.num n)
  | mdata {e : Expr} {t : Term} : Translates symbols e t → Translates symbols (.mdata e) t
  | zero : Translates symbols (.const Builtin.natZero) (.num 0)
  | bound {c target : String} {args : List Expr} {ts : List Term} :
      args ≠ [] → symbols.find? c = some target → List.Forall₂ (Translates symbols) args ts →
      Translates symbols ((Expr.const c).apply args) (.app target ts)
  | hAdd {α β γ inst l r : Expr} {s t : Term} :
      symbols.find? Builtin.hAdd = none → Translates symbols l s → Translates symbols r t →
      Translates symbols ((Expr.const Builtin.hAdd).apply [α, β, γ, inst, l, r]) (.add s t)
  | succ {n : Expr} {t : Term} : symbols.find? Builtin.natSucc = none → Translates symbols n t →
      Translates symbols ((Expr.const Builtin.natSucc).apply [n]) (.add t (.num 1))
  | ofNat {type n inst : Expr} {t : Term} : symbols.find? Builtin.ofNat = none →
      Translates symbols n t →
      Translates symbols ((Expr.const Builtin.ofNat).apply [type, n, inst]) t

/-- What is translated follows the rules. -/
theorem translates_of_ofExpr {e : Expr} {t : Term} (h : ofExpr symbols e = .ok t) :
    Translates symbols e t := by
  refine ofExpr_induct (motive := Translates symbols) .lit .zero (fun _ _ => .mdata)
    ?_ ?_ ?_ ?_ e t h
  · intro e c args target ts happ hne hfind hargs
    rw [Expr.eq_apply_of_constApp? happ]
    exact .bound hne hfind hargs
  · intro e n t happ hfind hn
    rw [Expr.eq_apply_of_constApp? happ]
    exact .succ hfind hn
  · intro e type n inst t happ hfind hn
    rw [Expr.eq_apply_of_constApp? happ]
    exact .ofNat hfind hn
  · intro e α β γ inst l r s t happ hfind hl hr
    rw [Expr.eq_apply_of_constApp? happ]
    exact .hAdd hfind hl hr

/-- An application of a constant is translated by its rules, given what its arguments become. -/
theorem ofExpr_apply (symbols : SymbolTable) (c : String) {args : List Expr} (hne : args ≠ []) :
    ofExpr symbols ((Expr.const c).apply args) =
      ofConstApp symbols ((Expr.const c).apply args) c (args.map (ofExpr symbols)) := by
  have happ := Expr.constApp?_apply c args
  have hargs : ((Expr.const c).apply args).args ≠ [] := by rwa [Expr.args_const_apply]
  obtain ⟨f, a, hwhole⟩ := Expr.exists_app_of_args_ne_nil hargs
  rw [hwhole] at happ ⊢
  rw [ofExpr_app, happ]

private theorem ofConstApp_bound (whole : Expr) {c target : String}
    (h : symbols.find? c = some target) (results : List (Except Unsupported Term)) :
    ofConstApp symbols whole c results = (all results).map (.app target) := by
  unfold ofConstApp
  rw [h]

private theorem ofConstApp_hAdd (whole : Expr) (h : symbols.find? Builtin.hAdd = none)
    (w x y z l r : Except Unsupported Term) :
    ofConstApp symbols whole Builtin.hAdd [w, x, y, z, l, r] = do return .add (← l) (← r) := by
  unfold ofConstApp
  rw [h]
  exact if_pos rfl

private theorem ofConstApp_succ (whole : Expr) (h : symbols.find? Builtin.natSucc = none)
    (n : Except Unsupported Term) :
    ofConstApp symbols whole Builtin.natSucc [n] = do return .add (← n) (.num 1) := by
  unfold ofConstApp
  rw [h]
  exact if_pos rfl

private theorem ofConstApp_ofNat (whole : Expr) (h : symbols.find? Builtin.ofNat = none)
    (x n y : Except Unsupported Term) : ofConstApp symbols whole Builtin.ofNat [x, n, y] = n := by
  unfold ofConstApp
  rw [h]
  exact if_pos rfl

/-- A constant that is not aligned is refused where it has no rule for the number of its
arguments. -/
theorem ofConstApp_of_no_rule (whole : Expr) {c : String} {results : List (Except Unsupported Term)}
    (h : symbols.find? c = none) (hadd : ¬ (c = Builtin.hAdd ∧ results.length = 6))
    (hsucc : ¬ (c = Builtin.natSucc ∧ results.length = 1))
    (hofNat : ¬ (c = Builtin.ofNat ∧ results.length = 3)) :
    ofConstApp symbols whole c results = .error (.constantApplication whole) := by
  unfold ofConstApp
  rw [h]
  dsimp only
  split
  · exact if_neg fun hc => hsucc ⟨hc, rfl⟩
  · exact if_neg fun hc => hofNat ⟨hc, rfl⟩
  · exact if_neg fun hc => hadd ⟨hc, rfl⟩
  · rfl

private theorem all_map_ok (ts : List Term) : all (ts.map .ok) = .ok ts := by
  induction ts with
  | nil => rfl
  | cons t ts ih =>
    rw [List.map_cons, all, ih]
    rfl

private theorem sizeOf_lt_apply {c : String} {args : List Expr} {x : Expr} (h : x ∈ args) :
    sizeOf x < sizeOf ((Expr.const c).apply args) := by
  apply Expr.sizeOf_lt_of_mem_args
  rwa [Expr.args_const_apply]

/-- What follows the rules is translated. -/
theorem ofExpr_of_translates {e : Expr} {t : Term} (h : Translates symbols e t) :
    ofExpr symbols e = .ok t := by
  -- the rule for aligned constants looks at a list of arguments, so the induction is on the size
  induction hsize : sizeOf e using Nat.strongRecOn generalizing e t with
  | ind size ih =>
    subst hsize
    cases h with
    | lit n => rfl
    | zero => simp [ofExpr]
    | mdata he =>
      rw [ofExpr]
      exact ih _ (by simp) he rfl
    | @bound c target args ts hne hfind hargs =>
      have hmembers : ∀ x ∈ args, ∀ t, Translates symbols x t → ofExpr symbols x = .ok t :=
        fun x hx t hxt => ih _ (sizeOf_lt_apply hx) hxt rfl
      have hresults : args.map (ofExpr symbols) = ts.map .ok := by
        have hboth := (List.forall₂_and_left _ _).mpr ⟨hmembers, hargs⟩
        rw [← List.forall₂_eq_eq_eq, List.forall₂_map_left_iff, List.forall₂_map_right_iff]
        exact hboth.imp fun x t hxt => hxt.1 t hxt.2
      rw [ofExpr_apply symbols c hne, ofConstApp_bound _ hfind, hresults, all_map_ok]
      rfl
    | hAdd hfind hl hr =>
      have hl := ih _ (sizeOf_lt_apply (by simp)) hl rfl
      have hr := ih _ (sizeOf_lt_apply (by simp)) hr rfl
      rw [ofExpr_apply symbols _ (by simp)]
      simp only [List.map_cons, List.map_nil, hl, hr, ofConstApp_hAdd _ hfind]
      rfl
    | succ hfind hn =>
      have hn := ih _ (sizeOf_lt_apply (by simp)) hn rfl
      rw [ofExpr_apply symbols _ (by simp)]
      simp only [List.map_cons, List.map_nil, hn, ofConstApp_succ _ hfind]
      rfl
    | ofNat hfind hn =>
      have hn := ih _ (sizeOf_lt_apply (by simp)) hn rfl
      rw [ofExpr_apply symbols _ (by simp)]
      simp only [List.map_cons, List.map_nil, hn, ofConstApp_ofNat _ hfind]

end Term

namespace Formula

variable {symbols : SymbolTable}

/-- The rules for formulas. -/
inductive Translates (symbols : SymbolTable) : Expr → Formula → Prop
  | mdata {e : Expr} {f : Formula} : Translates symbols e f → Translates symbols (.mdata e) f
  | eq {type l r : Expr} {s t : Term} :
      Term.Translates symbols l s → Term.Translates symbols r t →
      Translates symbols ((Expr.const Builtin.eq).apply [type, l, r]) (.eq s t)
  | and {l r : Expr} {f g : Formula} : Translates symbols l f → Translates symbols r g →
      Translates symbols ((Expr.const Builtin.and).apply [l, r]) (.and f g)

private theorem ofExpr_eq (symbols : SymbolTable) (type l r : Expr) :
    ofExpr symbols ((Expr.const Builtin.eq).apply [type, l, r]) =
      do return .eq (← Term.ofExpr symbols l) (← Term.ofExpr symbols r) := by
  have happly : (Expr.const Builtin.eq).apply [type, l, r] =
      .app (.app (.app (.const Builtin.eq) type) l) r := rfl
  rw [happly, ofExpr, if_pos rfl]

private theorem ofExpr_and (symbols : SymbolTable) (l r : Expr) :
    ofExpr symbols ((Expr.const Builtin.and).apply [l, r]) =
      do return .and (← ofExpr symbols l) (← ofExpr symbols r) := by
  have happly : (Expr.const Builtin.and).apply [l, r] = .app (.app (.const Builtin.and) l) r := rfl
  rw [happly, ofExpr, if_pos rfl]

/-- What is translated follows the rules. -/
theorem translates_of_ofExpr {e : Expr} {f : Formula} (h : ofExpr symbols e = .ok f) :
    Translates symbols e f := by
  refine ofExpr_induct (motive := Translates symbols) (fun _ _ => .mdata) ?_ ?_ h
  · intro type l r s t hl hr
    exact .eq (Term.translates_of_ofExpr hl) (Term.translates_of_ofExpr hr)
  · intro l r f g hl hr
    exact .and hl hr

/-- What follows the rules is translated. -/
theorem ofExpr_of_translates {e : Expr} {f : Formula} (h : Translates symbols e f) :
    ofExpr symbols e = .ok f := by
  induction h with
  | mdata _ ih => rwa [ofExpr]
  | eq hl hr =>
    rw [ofExpr_eq, Term.ofExpr_of_translates hl, Term.ofExpr_of_translates hr]
    rfl
  | and _ _ ihl ihr =>
    rw [ofExpr_and, ihl, ihr]
    rfl

end Formula

/-- What a position of a statement is to become. -/
inductive Role where
  | term
  | formula
  deriving DecidableEq, Repr

namespace Role

/-- The rules of a role relate an expression to something. -/
def Accepts (symbols : SymbolTable) : Role → Expr → Prop
  | .term, e => ∃ t, Term.Translates symbols e t
  | .formula, e => ∃ f, Formula.Translates symbols e f

/-- The translation of a role fails at an expression, for a reason. -/
def Refuses (symbols : SymbolTable) (error : Unsupported) : Role → Expr → Prop
  | .term, e => Term.ofExpr symbols e = .error error
  | .formula, e => Formula.ofExpr symbols e = .error error

/-- A rule of a role covers an expression, and looks at parts of it in order. -/
inductive Covers (symbols : SymbolTable) : Role → Expr → List (Role × Expr) → Prop
  | lit (n : Nat) : Covers symbols .term (.lit (.nat n)) []
  | zero : Covers symbols .term (.const Builtin.natZero) []
  | mdata (role : Role) (e : Expr) : Covers symbols role (.mdata e) [(role, e)]
  | bound {c target : String} {args : List Expr} : args ≠ [] → symbols.find? c = some target →
      Covers symbols .term ((Expr.const c).apply args) (args.map (Role.term, ·))
  | hAdd (α β γ inst l r : Expr) : symbols.find? Builtin.hAdd = none →
      Covers symbols .term ((Expr.const Builtin.hAdd).apply [α, β, γ, inst, l, r])
        [(.term, l), (.term, r)]
  | succ (n : Expr) : symbols.find? Builtin.natSucc = none →
      Covers symbols .term ((Expr.const Builtin.natSucc).apply [n]) [(.term, n)]
  | ofNat (type n inst : Expr) : symbols.find? Builtin.ofNat = none →
      Covers symbols .term ((Expr.const Builtin.ofNat).apply [type, n, inst]) [(.term, n)]
  | eq (type l r : Expr) :
      Covers symbols .formula ((Expr.const Builtin.eq).apply [type, l, r]) [(.term, l), (.term, r)]
  | and (l r : Expr) :
      Covers symbols .formula ((Expr.const Builtin.and).apply [l, r])
        [(.formula, l), (.formula, r)]

/-- The first expression that no rule covers, and the role in which it is met: the way to it leads
through positions that rules look at, and every position to the left of the way is accepted. -/
inductive FirstUncovered (symbols : SymbolTable) : Role → Expr → Role → Expr → Prop
  | here {role : Role} {e : Expr} : (∀ parts, ¬ Covers symbols role e parts) →
      FirstUncovered symbols role e role e
  | part {role next last : Role} {e x s : Expr} {before after : List (Role × Expr)} :
      Covers symbols role e (before ++ (next, x) :: after) →
      (∀ part ∈ before, part.1.Accepts symbols part.2) → FirstUncovered symbols next x last s →
      FirstUncovered symbols role e last s

variable {symbols : SymbolTable} {role last : Role} {e s : Expr} {parts : List (Role × Expr)}

/-- A rule looks under metadata or at arguments. -/
theorem Covers.eq_mdata_or_mem_args (h : Covers symbols role e parts) {part : Role × Expr}
    (hpart : part ∈ parts) : e = .mdata part.2 ∨ part.2 ∈ e.args := by
  cases h with
  | lit | zero => simp at hpart
  | mdata role e =>
    obtain rfl := List.mem_singleton.mp hpart
    exact .inl rfl
  | bound =>
    obtain ⟨x, hx, rfl⟩ := List.mem_map.mp hpart
    rw [Expr.args_const_apply]
    exact .inr hx
  | succ | ofNat =>
    obtain rfl := List.mem_singleton.mp hpart
    simp
  | hAdd | eq | and =>
    rcases List.mem_cons.mp hpart with rfl | hpart
    · simp
    · obtain rfl := List.mem_singleton.mp hpart
      simp

private theorem Covers.sizeOf_lt (h : Covers symbols role e parts) {part : Role × Expr}
    (hpart : part ∈ parts) : sizeOf part.2 < sizeOf e := by
  rcases h.eq_mdata_or_mem_args hpart with rfl | hmem
  · simp
  · exact Expr.sizeOf_lt_of_mem_args hmem

/-- The parts that a rule looks at are subexpressions. -/
theorem Covers.mem_subexpressions (h : Covers symbols role e parts) {part : Role × Expr}
    (hpart : part ∈ parts) : part.2 ∈ e.subexpressions := by
  rcases h.eq_mdata_or_mem_args hpart with rfl | hmem
  · simp [Expr.subexpressions, Expr.mem_subexpressions_self]
  · exact Expr.mem_subexpressions_of_mem_args hmem

/-- The first expression that no rule covers is a subexpression. -/
theorem FirstUncovered.mem_subexpressions (h : FirstUncovered symbols role e last s) :
    s ∈ e.subexpressions := by
  induction h with
  | here _ => exact Expr.mem_subexpressions_self _
  | part hcovers _ _ ih =>
    have hpart := hcovers.mem_subexpressions (List.mem_append_right _ List.mem_cons_self)
    exact Expr.mem_subexpressions_trans ih hpart

private theorem FirstUncovered.not_covers (h : FirstUncovered symbols role e last s) :
    ∀ parts, ¬ Covers symbols last s parts := by
  induction h with
  | here hnone => exact hnone
  | part _ _ _ ih => exact ih

/-- Translation in a role, for its success only. -/
def check (symbols : SymbolTable) : Role → Expr → Except Unsupported Unit
  | .term, e => (Term.ofExpr symbols e).map fun _ => ()
  | .formula, e => (Formula.ofExpr symbols e).map fun _ => ()

/-- A check succeeds exactly on what is accepted. -/
theorem check_eq_ok_iff : role.check symbols e = .ok () ↔ role.Accepts symbols e := by
  cases role with
  | term =>
    constructor
    · intro h
      obtain ⟨t, ht, _⟩ := exists_of_map_eq_ok h
      exact ⟨t, Term.translates_of_ofExpr ht⟩
    · rintro ⟨t, ht⟩
      rw [check, Term.ofExpr_of_translates ht]
      rfl
  | formula =>
    constructor
    · intro h
      obtain ⟨f, hf, _⟩ := exists_of_map_eq_ok h
      exact ⟨f, Formula.translates_of_ofExpr hf⟩
    · rintro ⟨f, hf⟩
      rw [check, Formula.ofExpr_of_translates hf]
      rfl

/-- A check fails exactly on what is refused, with the reason for which it is refused. -/
theorem check_eq_error_iff {error : Unsupported} :
    role.check symbols e = .error error ↔ role.Refuses symbols error e := by
  cases role with
  | term => exact map_eq_error_iff
  | formula => exact map_eq_error_iff

/-- What is said of an expression that no rule covers. -/
def uncovered : Expr → Unsupported
  | .app f a => .ofApplication (.app f a)
  | e => .expression e

private theorem check_all (symbols : SymbolTable) (args : List Expr) :
    (Term.all (args.map (Term.ofExpr symbols))).map (fun _ => ()) =
      forM (args.map (Role.term, ·)) fun part => part.1.check symbols part.2 := by
  induction args with
  | nil => rfl
  | cons arg args ih =>
    rw [List.map_cons, List.map_cons, Term.all, List.forM_cons, ← ih, check]
    cases Term.ofExpr symbols arg with
    | error e => rfl
    | ok t => cases Term.all (args.map (Term.ofExpr symbols)) <;> rfl

/-- Where a rule covers an expression, its translation succeeds if those of its parts do, and fails
like the first of them that fails. -/
theorem check_of_covers (h : Covers symbols role e parts) :
    role.check symbols e = forM parts fun part => part.1.check symbols part.2 := by
  cases h with
  | lit n => rfl
  | zero =>
    rw [check, Term.ofExpr, if_pos rfl]
    rfl
  | mdata role e =>
    cases role with
    | term =>
      simp only [List.forM_cons, List.forM_nil, check, Term.ofExpr]
      cases Term.ofExpr symbols e <;> rfl
    | formula =>
      simp only [List.forM_cons, List.forM_nil, check, Formula.ofExpr]
      cases Formula.ofExpr symbols e <;> rfl
  | bound hne hfind =>
    rw [check, Term.ofExpr_apply symbols _ hne, Term.ofConstApp_bound _ hfind, ← check_all]
    cases Term.all _ <;> rfl
  | hAdd α β γ inst l r hfind =>
    rw [check, Term.ofExpr_apply symbols _ (by simp)]
    simp only [List.map_cons, List.map_nil, Term.ofConstApp_hAdd _ hfind, List.forM_cons,
      List.forM_nil, check]
    cases Term.ofExpr symbols l <;> cases Term.ofExpr symbols r <;> rfl
  | succ n hfind =>
    rw [check, Term.ofExpr_apply symbols _ (by simp)]
    simp only [List.map_cons, List.map_nil, Term.ofConstApp_succ _ hfind, List.forM_cons,
      List.forM_nil, check]
    cases Term.ofExpr symbols n <;> rfl
  | ofNat type n inst hfind =>
    rw [check, Term.ofExpr_apply symbols _ (by simp)]
    simp only [List.map_cons, List.map_nil, Term.ofConstApp_ofNat _ hfind, List.forM_cons,
      List.forM_nil, check]
    cases Term.ofExpr symbols n <;> rfl
  | eq type l r =>
    rw [check, Formula.ofExpr_eq]
    simp only [List.forM_cons, List.forM_nil, check]
    cases Term.ofExpr symbols l <;> cases Term.ofExpr symbols r <;> rfl
  | and l r =>
    rw [check, Formula.ofExpr_and]
    simp only [List.forM_cons, List.forM_nil, check]
    cases Formula.ofExpr symbols l <;> cases Formula.ofExpr symbols r <;> rfl

private theorem uncovered_of_constApp? {f a : Expr} {c : String} {args : List Expr}
    (h : (Expr.app f a).constApp? = some (c, args)) :
    uncovered (.app f a) = .constantApplication (.app f a) := by
  have hhead : (Expr.app f a).head = .const c := by
    rw [Expr.head_eq, Expr.constApp?_eq_some_iff.mp h]
  rw [uncovered, Unsupported.ofApplication, hhead]

private theorem uncovered_of_constApp?_eq_none {f a : Expr} (h : (Expr.app f a).constApp? = none) :
    uncovered (.app f a) = .application (.app f a) := by
  rw [uncovered, Unsupported.ofApplication, Expr.head_eq]
  unfold Expr.constApp? at h
  rcases hspine : (Expr.app f a).spine with ⟨head, args⟩
  rw [hspine] at h
  cases head with
  | const c => cases h
  | _ => rfl

private theorem exists_six {args : List Expr} (h : args.length = 6) :
    ∃ α β γ inst l r, args = [α, β, γ, inst, l, r] := by
  obtain ⟨α, β, γ, rest, rfl⟩ : ∃ α β γ rest, args = α :: β :: γ :: rest := by
    rcases args with _ | ⟨α, _ | ⟨β, _ | ⟨γ, rest⟩⟩⟩
    · cases h
    · cases h
    · cases h
    · exact ⟨α, β, γ, rest, rfl⟩
  have hrest : rest.length = 3 := by simpa using h
  obtain ⟨inst, l, r, rfl⟩ := List.length_eq_three.mp hrest
  exact ⟨α, β, γ, inst, l, r, rfl⟩

/-- Without a rule for it, the application of a constant is refused as a whole. -/
theorem ofExpr_of_not_covers {f a : Expr} {c : String} {args : List Expr}
    (h : ∀ parts, ¬ Covers symbols .term (.app f a) parts)
    (happ : (Expr.app f a).constApp? = some (c, args)) :
    Term.ofExpr symbols (.app f a) = .error (.constantApplication (.app f a)) := by
  have hwhole := Expr.eq_apply_of_constApp? happ
  have hne : args ≠ [] := by
    rintro rfl
    cases hwhole
  have hfind : symbols.find? c = none := by
    cases hfind : symbols.find? c with
    | none => rfl
    | some target => exact absurd (hwhole ▸ Covers.bound hne hfind) (h _)
  rw [Term.ofExpr_app, happ]
  apply Term.ofConstApp_of_no_rule (.app f a) hfind
  · rintro ⟨rfl, hlength⟩
    obtain ⟨α, β, γ, inst, l, r, rfl⟩ :=
      exists_six (List.length_map (Term.ofExpr symbols) ▸ hlength)
    exact h _ (hwhole ▸ Covers.hAdd α β γ inst l r hfind)
  · rintro ⟨rfl, hlength⟩
    obtain ⟨n, rfl⟩ := List.length_eq_one_iff.mp (List.length_map (Term.ofExpr symbols) ▸ hlength)
    exact h _ (hwhole ▸ Covers.succ n hfind)
  · rintro ⟨rfl, hlength⟩
    obtain ⟨type, n, inst, rfl⟩ :=
      List.length_eq_three.mp (List.length_map (Term.ofExpr symbols) ▸ hlength)
    exact h _ (hwhole ▸ Covers.ofNat type n inst hfind)

/-- Where no rule covers an expression, its translation fails at the expression itself. -/
theorem check_of_not_covers (h : ∀ parts, ¬ Covers symbols role e parts) :
    role.check symbols e = .error (uncovered e) := by
  rw [check_eq_error_iff]
  cases role with
  | term =>
    rw [Refuses]
    cases e with
    | lit value =>
      cases value with
      | nat n => exact absurd (.lit n) (h [])
      | str s => rfl
    | mdata e => exact absurd (.mdata .term e) (h _)
    | const c =>
      have hc : c ≠ Builtin.natZero := by
        rintro rfl
        exact h [] .zero
      rw [Term.ofExpr, if_neg hc]
      rfl
    | app f a =>
      cases happ : (Expr.app f a).constApp? with
      | none => rw [Term.ofExpr_app, happ, uncovered_of_constApp?_eq_none happ]
      | some found => rw [ofExpr_of_not_covers h happ, uncovered_of_constApp? happ]
    | _ => rfl
  | formula =>
    rw [Refuses]
    fun_cases Formula.ofExpr symbols e with
    | case1 e => exact absurd (.mdata .formula e) (h _)
    | case2 l r => exact absurd (.and l r) (h _)
    | case3 c l r hc => rfl
    | case4 x l r => exact absurd (.eq x l r) (h _)
    | case5 c x l r hc => rfl
    | case6 f a _ _ => rfl
    | case7 e hmdata _ _ happ =>
      cases e with
      | mdata e => exact absurd rfl (hmdata e)
      | app f a => exact absurd rfl (happ f a)
      | _ => rfl

private theorem FirstUncovered.check_eq (h : FirstUncovered symbols role e last s) :
    role.check symbols e = .error (uncovered s) := by
  induction h with
  | here hnone => exact check_of_not_covers hnone
  | @part role next last e x s before after hcovers hbefore _ ih =>
    rw [check_of_covers hcovers, forM_eq_error_iff]
    exact ⟨before, (next, x), after, rfl,
      fun part hpart => check_eq_ok_iff.mpr (hbefore part hpart), ih⟩

/-- A translation that fails has met an expression that no rule covers. -/
theorem exists_firstUncovered {error : Unsupported} (h : role.check symbols e = .error error) :
    ∃ last s, FirstUncovered symbols role e last s ∧ error = uncovered s := by
  induction hsize : sizeOf e using Nat.strongRecOn generalizing role e with
  | ind size ih =>
    subst hsize
    by_cases hcovered : ∃ parts, Covers symbols role e parts
    · obtain ⟨parts, hcovers⟩ := hcovered
      rw [check_of_covers hcovers, forM_eq_error_iff] at h
      obtain ⟨before, ⟨next, x⟩, after, rfl, hbefore, hx⟩ := h
      have hmem : (next, x) ∈ before ++ (next, x) :: after :=
        List.mem_append_right _ List.mem_cons_self
      have hsmaller : sizeOf x < sizeOf e := hcovers.sizeOf_lt hmem
      obtain ⟨last, s, hfirst, herror⟩ := ih _ hsmaller hx rfl
      have haccepts : ∀ part ∈ before, part.1.Accepts symbols part.2 :=
        fun part hpart => check_eq_ok_iff.mp (hbefore part hpart)
      exact ⟨last, s, .part hcovers haccepts hfirst, herror⟩
    · have hnone : ∀ parts, ¬ Covers symbols role e parts :=
        fun parts hparts => hcovered ⟨parts, hparts⟩
      rw [check_of_not_covers hnone] at h
      exact ⟨role, e, .here hnone, (Except.error.inj h).symm⟩

private theorem expr_uncovered (s : Expr) : (uncovered s).expr = s := by
  cases s with
  | app f a =>
    rw [uncovered, Unsupported.ofApplication]
    split <;> rfl
  | _ => rfl

/-- Which refusal an expression meets that no rule covers depends on its shape only. -/
theorem uncovered_eq_iff (s : Expr) :
    (uncovered s = .application s ↔ (∃ f a, s = .app f a) ∧ ∀ c, s.head ≠ .const c) ∧
    (uncovered s = .constantApplication s ↔ (∃ f a, s = .app f a) ∧ ∃ c, s.head = .const c) ∧
    (uncovered s = .expression s ↔ ∀ f a, s ≠ .app f a) := by
  cases s with
  | app f a =>
    rw [uncovered, Unsupported.ofApplication]
    cases (Expr.app f a).head <;> simp
  | _ => simp [uncovered]

end Role

/-- Translation accepts exactly what the rules relate. It fails exactly for the reason for which it
fails at the first expression that no rule covers, on the way along the positions that rules look
at; that expression stands in the whole one, and its shape decides on the kind of refusal. -/
theorem translation_follows_rules (symbols : SymbolTable) :
    (∀ e t, Term.ofExpr symbols e = .ok t ↔ Term.Translates symbols e t) ∧
    (∀ e f, Formula.ofExpr symbols e = .ok f ↔ Formula.Translates symbols e f) ∧
    (∀ (role : Role) (e : Expr) (error : Unsupported), role.Refuses symbols error e ↔
      ∃ last, Role.FirstUncovered symbols role e last error.expr ∧
        last.Refuses symbols error error.expr) ∧
    ∀ (role : Role) (e : Expr) (error : Unsupported), role.Refuses symbols error e →
      error.expr ∈ e.subexpressions ∧
      (error = .application error.expr ↔
        (∃ f a, error.expr = .app f a) ∧ ∀ c, error.expr.head ≠ .const c) ∧
      (error = .constantApplication error.expr ↔
        (∃ f a, error.expr = .app f a) ∧ ∃ c, error.expr.head = .const c) ∧
      (error = .expression error.expr ↔ ∀ f a, error.expr ≠ .app f a) := by
  refine ⟨fun e t => ⟨Term.translates_of_ofExpr, Term.ofExpr_of_translates⟩,
    fun e f => ⟨Formula.translates_of_ofExpr, Formula.ofExpr_of_translates⟩, ?_, ?_⟩
  · intro role e error
    constructor
    · intro h
      obtain ⟨last, s, hfirst, rfl⟩ := Role.exists_firstUncovered (Role.check_eq_error_iff.mpr h)
      have hself := Role.check_eq_error_iff.mp (Role.check_of_not_covers hfirst.not_covers)
      rw [Role.expr_uncovered]
      exact ⟨last, hfirst, hself⟩
    · rintro ⟨last, hfirst, hself⟩
      have hreported := Role.check_eq_error_iff.mp hfirst.check_eq
      have hsame := (Role.check_of_not_covers hfirst.not_covers).symm.trans
        (Role.check_eq_error_iff.mpr hself)
      rwa [← Except.error.inj hsame]
  · intro role e error h
    obtain ⟨last, s, hfirst, rfl⟩ := Role.exists_firstUncovered (Role.check_eq_error_iff.mpr h)
    rw [Role.expr_uncovered]
    exact ⟨hfirst.mem_subexpressions, Role.uncovered_eq_iff s⟩

/-- A text among the arguments of an aligned function, after a conjunct that is fine and before a
variable. -/
theorem translation_follows_rules_text_argument :
    let symbols := SymbolTable.empty.insert "f" "F"
    let text := Expr.strLit "x"
    let sum := Expr.natAdd ((Expr.const "f").apply [.nat 1, .mdata text]) (.bvar 0)
    let e := Expr.and (.natEq (.nat 2) (.nat 2)) (.natEq sum (.nat 3))
    Role.formula.Refuses symbols (.expression text) e ∧
    (∃ last, Role.FirstUncovered symbols .formula e last text ∧
      last.Refuses symbols (.expression text) text) ∧
    text ∈ e.subexpressions ∧ ∀ f a, text ≠ .app f a := by
  intro symbols text sum e
  have hrefuses : Role.formula.Refuses symbols (.expression text) e := rfl
  obtain ⟨_, _, hfirst, hreported⟩ := translation_follows_rules symbols
  obtain ⟨hmem, _, _, hshape⟩ := hreported .formula e (.expression text) hrefuses
  exact ⟨hrefuses, (hfirst .formula e (.expression text)).mp hrefuses, hmem, hshape.mp rfl⟩

end PropExport
