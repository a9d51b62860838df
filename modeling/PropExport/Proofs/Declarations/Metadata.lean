import PropExport.Proofs.Declarations.Binders
import PropExport.Proofs.Expr.Metadata

/-!
# Metadata in types

What metadata can change in the answer whether a type is a proposition. Around the type, between
binders, inside their types, around arguments and around what is applied it changes nothing. Where
it wraps an application that is itself applied to further arguments, the head of the whole is not
found, and the type does not count as a proposition although it would without its metadata.
-/

namespace PropExport

namespace Expr

/-- Whether an expression gives a function an argument. -/
def isApp : Expr → Bool
  | .app _ _ => true
  | _ => false

/-- Whether, under the binders of an expression, arguments are given to an application that is
wrapped in metadata. -/
def hidesArguments : Expr → Bool
  | .mdata e => e.hidesArguments
  | .pi _ b => b.hidesArguments
  | .app f _ => f.head.stripMeta.isApp
  | _ => false

private theorem stripMeta_ne_mdata (e inner : Expr) : e.stripMeta ≠ .mdata inner := by
  induction e with
  | mdata e ih => exact ih
  | _ => rintro ⟨⟩

private theorem eraseMeta_stripMeta (e : Expr) : e.stripMeta.eraseMeta = e.eraseMeta := by
  induction e with
  | mdata e ih => exact ih
  | _ => rfl

/-- The head of an application without metadata is found by going on under the metadata around its
head. -/
theorem head_eraseMeta (e : Expr) : e.eraseMeta.head = e.head.stripMeta.eraseMeta.head := by
  induction e with
  | app f a ihf _ => exact ihf
  | mdata e ih =>
    change e.eraseMeta.head = e.stripMeta.eraseMeta.head
    rw [eraseMeta_stripMeta]
  | _ => rfl

private theorem yieldsProp_eraseMeta (t : Expr) : t.eraseMeta.yieldsProp = t.yieldsProp := by
  induction t with
  | mdata e ih => exact ih
  | pi t b _ ihb => exact ihb
  | _ => rfl

end Expr

namespace Declarations

open PropExport.Expr

variable (decls : Declarations)

/-- What is applied is a predicate exactly if it is one without metadata, unless it is an
application. -/
theorem isPredicate_eraseMeta (binders : List Expr) {fn : Expr} (hfn : ∀ inner, fn ≠ .mdata inner) :
    decls.isPredicate binders fn =
      (decls.isPredicate (binders.map eraseMeta) fn.eraseMeta.head.stripMeta && !fn.isApp) := by
  cases fn with
  | app f a => exact (Bool.and_false _).symm
  | mdata inner => exact absurd rfl (hfn inner)
  | bvar i =>
    have hyields : (binders.map eraseMeta).map yieldsProp = binders.map yieldsProp := by
      rw [List.map_map]
      exact List.map_congr_left fun t _ => t.yieldsProp_eraseMeta
    exact (any_getElem?_congr hyields i.toNat).symm.trans (Bool.and_true _).symm
  | _ => exact (Bool.and_true _).symm

private theorem isPropositionUnder_eraseMeta (binders : List Expr) (e : Expr) :
    decls.isPropositionUnder binders e =
      (decls.isPropositionUnder (binders.map eraseMeta) e.eraseMeta && !e.hidesArguments) := by
  induction e generalizing binders with
  | mdata e ih => exact ih binders
  | pi t b _ ihb => exact ihb (t :: binders)
  | app f a =>
    have h := decls.isPredicate_eraseMeta binders (stripMeta_ne_mdata f.head)
    rw [← head_eraseMeta] at h
    exact h
  | _ => exact decls.isPredicate_eraseMeta binders (by rintro _ ⟨⟩)

/-- A type is a proposition exactly if it is one without metadata and does not hide arguments. So
metadata changes the answer only for a proposition, only by hiding its arguments, and then
always. -/
theorem isProposition_eq_eraseMeta_iff (decls : Declarations) (type : Expr) :
    decls.isProposition type = (decls.isProposition type.eraseMeta && !type.hidesArguments) ∧
    (decls.isProposition type = decls.isProposition type.eraseMeta ↔
      type.hidesArguments = false ∨ decls.isProposition type.eraseMeta = false) := by
  have h : decls.isProposition type =
      (decls.isProposition type.eraseMeta && !type.hidesArguments) := by
    rw [isProposition_eq, isProposition_eq]
    exact decls.isPropositionUnder_eraseMeta [] type
  refine ⟨h, ?_⟩
  rw [h]
  cases decls.isProposition type.eraseMeta <;> cases type.hidesArguments <;> decide

/-- A conjunction whose first half stands under metadata together with its connective is not taken
for a proposition. -/
theorem isProposition_ne_eraseMeta_conjunction :
    let type := Expr.app (.mdata (.app (.const Builtin.and) (.const "True"))) (.const "True")
    type.eraseMeta = .and (.const "True") (.const "True") ∧
    ({} : Declarations).isProposition type.eraseMeta = true ∧
    ({} : Declarations).isProposition type = false :=
  ⟨rfl, rfl, rfl⟩

end Declarations

end PropExport
