import PropExport.Proofs.Expr.Spine

/-!
# Expressions without metadata

Metadata can stand anywhere in an expression. Where it wraps the function of an application, the
spine of the application ends there, although it would go on if the metadata were taken away.
Everywhere else an expression and what is left of it without metadata have spines that correspond.
-/

namespace PropExport.Expr

/-- An expression with all metadata in it taken away. -/
def eraseMeta : Expr → Expr
  | .app f a => .app f.eraseMeta a.eraseMeta
  | .lam t b => .lam t.eraseMeta b.eraseMeta
  | .pi t b => .pi t.eraseMeta b.eraseMeta
  | .mdata e => e.eraseMeta
  | e => e

/-- No metadata is left at the top. -/
theorem eraseMeta_ne_mdata (e inner : Expr) : e.eraseMeta ≠ .mdata inner := by
  induction e with
  | mdata e ih => exact ih
  | _ => rintro ⟨⟩

/-- Metadata is erased from a function and its arguments one by one. -/
theorem eraseMeta_apply (f : Expr) (args : List Expr) :
    (f.apply args).eraseMeta = f.eraseMeta.apply (args.map eraseMeta) := by
  induction args generalizing f with
  | nil => rfl
  | cons arg args ih => exact ih (.app f arg)

/-- An application whose function, under all its arguments, is wrapped in metadata. -/
def WrapsFunction (e : Expr) : Prop :=
  ∃ f a wrapped, e = .app f a ∧ e.head = .mdata wrapped

/-- An application of a constant to arguments without metadata comes from one of the same constant,
unless there was metadata around the whole of it or around its function. -/
theorem exists_apply_of_eraseMeta_eq {e : Expr} {c : String} {args : List Expr}
    (h : e.eraseMeta = (const c).apply args) (hmdata : ∀ inner, e ≠ .mdata inner)
    (hwraps : ¬ e.WrapsFunction) :
    ∃ args', e = (const c).apply args' ∧ args'.map eraseMeta = args := by
  -- erasing can lengthen the spine only at the head, and only if metadata stands there
  have hspine : (e.head.eraseMeta.spine.1, e.head.eraseMeta.spine.2 ++ e.args.map eraseMeta) =
      (const c, args) := by
    rw [← spine_apply, ← eraseMeta_apply, head_apply_args, h, spine_apply]
    rfl
  cases hhead : e.head with
  | const c' =>
    rw [hhead] at hspine
    obtain ⟨hc, hargs⟩ := Prod.mk.inj hspine
    refine ⟨e.args, ?_, hargs⟩
    have hwhole := e.head_apply_args
    rw [hhead] at hwhole
    rw [← hc]
    exact hwhole.symm
  | mdata wrapped =>
    cases e with
    | app f a => exact absurd ⟨f, a, wrapped, rfl, hhead⟩ hwraps
    | mdata inner => exact absurd rfl (hmdata inner)
    | _ => cases hhead
  | app f a => exact absurd hhead (head_ne_app e f a)
  | _ =>
    rw [hhead] at hspine
    cases hspine

end PropExport.Expr
