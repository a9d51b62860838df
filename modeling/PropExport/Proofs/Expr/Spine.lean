import PropExport.Expr.Builtin

/-!
# Spines of applications

Taking an application apart into its head and its arguments, and putting it together again. The two
undo each other.
-/

namespace PropExport.Expr

/-- Given arguments stay behind those of the expression. -/
theorem spineOnto_eq (e : Expr) (rest : List Expr) :
    e.spineOnto rest = (e.spine.1, e.spine.2 ++ rest) := by
  induction e generalizing rest with
  | app f a ihf _ =>
    rw [spine, spineOnto, spineOnto, ihf, ihf [a]]
    simp
  | _ => rfl

/-- One more argument is added at the end of a spine. -/
theorem spine_app (f a : Expr) : (app f a).spine = (f.spine.1, f.spine.2 ++ [a]) := by
  rw [spine, spineOnto, spineOnto_eq]

/-- The head of an expression is that of its spine. -/
theorem head_eq (e : Expr) : e.head = e.spine.1 := by
  induction e with
  | app f a ihf _ => rw [head, ihf, spine_app]
  | _ => rfl

/-- What is under all arguments is no application. -/
theorem head_ne_app (e f a : Expr) : e.head ≠ .app f a := by
  induction e with
  | app g b ihg _ => exact ihg
  | _ => rintro ⟨⟩

/-- An application has an argument. -/
theorem args_app_ne_nil (f a : Expr) : (app f a).args ≠ [] := by
  rw [args, spine_app]
  simp

/-- An expression with arguments is an application. -/
theorem exists_app_of_args_ne_nil {e : Expr} (h : e.args ≠ []) : ∃ f a, e = .app f a := by
  cases e with
  | app f a => exact ⟨f, a, rfl⟩
  | _ => exact absurd rfl h

/-- Every argument is smaller than the application. -/
theorem sizeOf_lt_of_mem_args {e arg : Expr} (h : arg ∈ e.args) : sizeOf arg < sizeOf e := by
  induction e with
  | app f a ihf _ =>
    rw [args, spine_app, List.mem_append, List.mem_singleton] at h
    rcases h with h | rfl
    · have := ihf h
      simp only [app.sizeOf_spec]
      omega
    · simp only [app.sizeOf_spec]
      omega
  | _ => exact absurd h List.not_mem_nil

/-- The application of a constant is told by its spine. -/
theorem constApp?_eq_some_iff {e : Expr} {c : String} {args : List Expr} :
    e.constApp? = some (c, args) ↔ e.spine = (.const c, args) := by
  unfold constApp?
  rcases e.spine with ⟨head, found⟩
  cases head <;> simp

/-- Further arguments come after those that a function has already. -/
theorem spine_apply (f : Expr) (args : List Expr) :
    (f.apply args).spine = (f.spine.1, f.spine.2 ++ args) := by
  induction args generalizing f with
  | nil => simp [apply]
  | cons arg args ih =>
    have hcons : f.apply (arg :: args) = (app f arg).apply args := rfl
    rw [hcons, ih, spine_app, List.append_assoc, List.singleton_append]

/-- Putting the parts of an application together again. -/
theorem apply_spine (e : Expr) : e.spine.1.apply e.spine.2 = e := by
  induction e with
  | app f a ihf _ =>
    have happly : f.spine.1.apply (f.spine.2 ++ [a]) = app (f.spine.1.apply f.spine.2) a := by
      simp [apply]
    rw [spine_app, happly, ihf]
  | _ => rfl

/-- An expression is its head applied to its arguments. -/
theorem head_apply_args (e : Expr) : e.head.apply e.args = e := by
  rw [head_eq, args, apply_spine]

/-- The arguments that a constant is applied to are those of the application. -/
@[simp]
theorem args_const_apply (c : String) (args : List Expr) : ((const c).apply args).args = args := by
  rw [Expr.args, spine_apply]
  rfl

/-- Applying a function further does not change the constant at its head. -/
theorem constApp?_apply_eq (f : Expr) (args : List Expr) :
    (f.apply args).constApp? = f.constApp?.map fun (c, front) => (c, front ++ args) := by
  unfold constApp?
  rw [spine_apply]
  rcases f.spine with ⟨head, front⟩
  cases head <;> rfl

/-- A constant that is applied is recognized with its arguments. -/
theorem constApp?_apply (c : String) (args : List Expr) :
    ((const c).apply args).constApp? = some (c, args) :=
  constApp?_apply_eq (const c) args

/-- What is recognized as the application of a constant is that application. -/
theorem eq_apply_of_constApp? {e : Expr} {c : String} {args : List Expr}
    (h : e.constApp? = some (c, args)) : e = (const c).apply args := by
  have hspine := constApp?_eq_some_iff.mp h
  rw [← apply_spine e, hspine]

/-- What is no application has no arguments. -/
theorem spine_eq_of_ne_app {f : Expr} (hf : ∀ g a, f ≠ .app g a) : f.spine = (f, []) := by
  cases f with
  | app g a => exact absurd rfl (hf g a)
  | _ => rfl

/-- An expression with all that it is built from. -/
def subexpressions : Expr → List Expr
  | .app f a => .app f a :: (f.subexpressions ++ a.subexpressions)
  | .lam t b => .lam t b :: (t.subexpressions ++ b.subexpressions)
  | .pi t b => .pi t b :: (t.subexpressions ++ b.subexpressions)
  | .mdata e => .mdata e :: e.subexpressions
  | e => [e]

/-- Every expression is a subexpression of itself. -/
theorem mem_subexpressions_self (e : Expr) : e ∈ e.subexpressions := by
  cases e <;> simp [subexpressions]

/-- Subexpressions of subexpressions are subexpressions. -/
theorem mem_subexpressions_trans {e mid s : Expr} (h : s ∈ mid.subexpressions)
    (hmid : mid ∈ e.subexpressions) : s ∈ e.subexpressions := by
  induction e with
  | app f a ihf iha | lam f a ihf iha | pi f a ihf iha =>
    rw [subexpressions, List.mem_cons, List.mem_append] at hmid
    rcases hmid with rfl | hmid | hmid
    · exact h
    · simp [subexpressions, ihf hmid]
    · simp [subexpressions, iha hmid]
  | mdata e ih =>
    rw [subexpressions, List.mem_cons] at hmid
    rcases hmid with rfl | hmid
    · exact h
    · simp [subexpressions, ih hmid]
  | _ =>
    rw [subexpressions.eq_def, List.mem_singleton] at hmid
    exact hmid ▸ h

/-- Arguments are subexpressions. -/
theorem mem_subexpressions_of_mem_args {e arg : Expr} (h : arg ∈ e.args) :
    arg ∈ e.subexpressions := by
  induction e with
  | app f a ihf _ =>
    rw [args, spine_app, List.mem_append, List.mem_singleton] at h
    rcases h with h | rfl
    · simp [subexpressions, ihf h]
    · simp [subexpressions, mem_subexpressions_self]
  | _ => exact absurd h List.not_mem_nil

/-- Taking an application apart and applying a function undo each other. What is found under the
arguments of an expression is no application, and applied to them it gives the expression back; each
argument is a smaller part of it. The other way round, what a function is applied to stands behind
the arguments that it has already, so a function that is no application is found again with exactly
what it was applied to. -/
theorem spine_inverse_apply (e f : Expr) (xs : List Expr) :
    ((∀ g a, e.spine.1 ≠ .app g a) ∧ e.spine.1 = e.head ∧ e.spine.1.apply e.spine.2 = e ∧
      ∀ arg ∈ e.spine.2, arg ∈ e.subexpressions ∧ sizeOf arg < sizeOf e) ∧
    (f.apply xs).spine = (f.spine.1, f.spine.2 ++ xs) ∧
    (f.apply xs).constApp? = f.constApp?.map (fun (c, front) => (c, front ++ xs)) ∧
    ((∀ g a, f ≠ .app g a) →
      (f.apply xs).spine = (f, xs) ∧
        (f.apply xs).constApp? = f.constName?.map fun c => (c, xs)) := by
  refine ⟨⟨?_, e.head_eq.symm, e.apply_spine, ?_⟩, f.spine_apply xs, f.constApp?_apply_eq xs, ?_⟩
  · rw [← head_eq]
    exact e.head_ne_app
  · exact fun arg harg => ⟨mem_subexpressions_of_mem_args harg, sizeOf_lt_of_mem_args harg⟩
  · intro hf
    have hspine : (f.apply xs).spine = (f, xs) := by
      rw [spine_apply, spine_eq_of_ne_app hf, List.nil_append]
    refine ⟨hspine, ?_⟩
    unfold constApp?
    rw [hspine]
    cases f <;> rfl

/-- A sum has six arguments. Metadata around an application is no application, so what is applied
under it does not count, and no constant is found. -/
theorem spine_inverse_apply_sum :
    let sum := natAdd (nat 2) (nat 1)
    let wrapped := mdata (app (const "f") (bvar 0))
    (sum.spine.2.length = 6 ∧ sum.spine.1.apply sum.spine.2 = sum ∧ sizeOf (nat 2) < sizeOf sum) ∧
    (∀ g a, wrapped ≠ .app g a) ∧ (wrapped.apply [nat 2, nat 1]).spine = (wrapped, [nat 2, nat 1]) ∧
    (wrapped.apply [nat 2, nat 1]).constApp? = none := by
  intro sum wrapped
  have hwrapped : ∀ g a, wrapped ≠ .app g a := by simp [wrapped]
  obtain ⟨⟨_, _, happly, hargs⟩, _, _, hfound⟩ := spine_inverse_apply sum wrapped [nat 2, nat 1]
  obtain ⟨hspine, hconst⟩ := hfound hwrapped
  have htwo : nat 2 ∈ sum.spine.2 := by decide
  exact ⟨⟨rfl, happly, (hargs _ htwo).2⟩, hwrapped, hspine, hconst⟩

end PropExport.Expr
