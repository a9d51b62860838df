import PropExport.Proofs.Expr.Spine
import PropExport.Proofs.Session.Record

/-!
# Propositions under binders

Whether a type is a proposition is decided at the head of what stands under its binders. A variable
there counts from the innermost binder, so it is a predicate exactly if the binder that binds it has
the type of one. Binding a variable and declaring a new constant in its place come to the same.
-/

namespace PropExport

section Lists

variable {α : Type} {x : α} {i : Nat}

/-- Counting from the end of a list. -/
theorem getElem?_reverse_eq_some_iff {xs : List α} :
    xs.reverse[i]? = some x ↔ ∃ before after, xs = before ++ x :: after ∧ after.length = i := by
  constructor
  · intro h
    obtain ⟨hi, rfl⟩ := List.getElem?_eq_some_iff.mp h
    refine ⟨(xs.reverse.drop (i + 1)).reverse, (xs.reverse.take i).reverse, ?_, ?_⟩
    · have hsplit := List.take_append_drop i xs.reverse
      rw [List.drop_eq_getElem_cons hi] at hsplit
      simpa using (congrArg List.reverse hsplit).symm
    · rw [List.length_reverse, List.length_take]
      omega
  · rintro ⟨before, after, rfl, rfl⟩
    simp

/-- Without an element of a list, those behind it are one place nearer. -/
theorem getElem?_append_cons_of_lt {before after : List α} (h : before.length < i) :
    (before ++ x :: after)[i]? = (before ++ after)[i - 1]? := by
  obtain ⟨k, rfl⟩ : ∃ k, i = before.length + 1 + k := ⟨i - (before.length + 1), by omega⟩
  rw [List.getElem?_append_right (by omega), List.getElem?_append_right (by omega),
    show before.length + 1 + k - before.length = k + 1 by omega,
    show before.length + 1 + k - 1 - before.length = k by omega, List.getElem?_cons_succ]

end Lists

namespace Expr

/-- An expression is another one under binders, outermost first, with metadata anywhere around and
between them. -/
inductive Under : Expr → List Expr → Expr → Prop
  | here (e : Expr) : Under e [] e
  | mdata {types : List Expr} {e inner : Expr} : Under e types inner → Under (.mdata e) types inner
  | pi {type : Expr} {types : List Expr} {body inner : Expr} :
      Under body types inner → Under (.pi type body) (type :: types) inner

/-- Replaces a bound variable by a constant. The given index is the one that the variable has
outside all binders of the expression; it is higher by one under each of them. The variables of
binders further outside are counted without the one that is gone. -/
def instantiate (c : String) : Nat → Expr → Expr
  | depth, .bvar i =>
    if i.toNat < depth then .bvar i else if i.toNat = depth then .const c else .bvar (i - 1)
  | depth, .app f a => .app (f.instantiate c depth) (a.instantiate c depth)
  | depth, .lam t b => .lam (t.instantiate c depth) (b.instantiate c (depth + 1))
  | depth, .pi t b => .pi (t.instantiate c depth) (b.instantiate c (depth + 1))
  | depth, .mdata e => .mdata (e.instantiate c depth)
  | _, e => e

section Instantiate

variable (c : String)

/-- Only a constant or another variable takes the place of a variable. -/
theorem instantiate_bvar_cases (i : UInt32) (depth : Nat) :
    (∃ j, (bvar i).instantiate c depth = .bvar j) ∨ (bvar i).instantiate c depth = .const c := by
  rw [instantiate]
  split
  · exact .inl ⟨i, rfl⟩
  · split
    · exact .inr rfl
    · exact .inl ⟨i - 1, rfl⟩

private theorem head_instantiate (e : Expr) (depth : Nat) :
    (e.instantiate c depth).head = e.head.instantiate c depth := by
  induction e with
  | bvar i =>
    change (instantiate c depth (bvar i)).head = instantiate c depth (bvar i)
    rcases instantiate_bvar_cases c i depth with ⟨j, h⟩ | h <;> rw [h] <;> rfl
  | app f a ihf _ => exact ihf
  | _ => rfl

private theorem stripMeta_instantiate (e : Expr) (depth : Nat) :
    (e.instantiate c depth).stripMeta = e.stripMeta.instantiate c depth := by
  induction e with
  | bvar i =>
    change (instantiate c depth (bvar i)).stripMeta = instantiate c depth (bvar i)
    rcases instantiate_bvar_cases c i depth with ⟨j, h⟩ | h <;> rw [h] <;> rfl
  | mdata e ih => exact ih
  | _ => rfl

/-- Whether a type ends in the universe of propositions does not depend on variables. -/
theorem yieldsProp_instantiate (t : Expr) (depth : Nat) :
    (t.instantiate c depth).yieldsProp = t.yieldsProp := by
  induction t generalizing depth with
  | bvar i => rcases instantiate_bvar_cases c i depth with ⟨j, h⟩ | h <;> rw [h] <;> rfl
  | mdata e ih => exact ih depth
  | pi t b _ ihb => exact ihb (depth + 1)
  | _ => rfl

end Instantiate

private theorem mem_subexpressions_head (e : Expr) : e.head ∈ e.subexpressions := by
  induction e with
  | app f a ihf _ => simp [head, subexpressions, ihf]
  | _ => exact mem_subexpressions_self _

private theorem mem_subexpressions_stripMeta (e : Expr) : e.stripMeta ∈ e.subexpressions := by
  induction e with
  | mdata e ih => simp [stripMeta, subexpressions, ih]
  | _ => exact mem_subexpressions_self _

end Expr

namespace Declarations

open PropExport.Expr

/-- Whether what is applied is a proposition former, a declared predicate or one that the given
binders bind, innermost first. -/
def isPredicate (decls : Declarations) (binders : List Expr) : Expr → Bool
  | .const c => Builtin.propositionFormers.contains c || (decls.find? c).any yieldsProp
  | .bvar i => (binders[i.toNat]?).any yieldsProp
  | _ => false

/-- Whether a type that stands under the given binders, innermost first, is a proposition. -/
def isPropositionUnder (decls : Declarations) : List Expr → Expr → Bool
  | binders, .mdata e => decls.isPropositionUnder binders e
  | binders, .pi t b => decls.isPropositionUnder (t :: binders) b
  | binders, e => decls.isPredicate binders e.head.stripMeta

/-- The binder that an index refers to stands at that index once the innermost one comes first. -/
theorem binderAt?_eq (binders : List Expr) (i : Nat) :
    binderAt? binders i = binders.reverse[i]? := by
  unfold binderAt?
  split
  · next hi =>
    rw [List.getElem?_reverse hi, Nat.sub_sub, Nat.add_comm]
  · next hi => rw [List.getElem?_eq_none (by simpa using hi)]

/-- Looking up whether a binder binds a predicate needs no more than that of each binder. -/
theorem any_getElem?_congr {types types' : List Expr}
    (h : types'.map yieldsProp = types.map yieldsProp) (i : Nat) :
    (types'[i]?).any yieldsProp = (types[i]?).any yieldsProp := by
  have hat := congrArg (fun ends : List Bool => (ends[i]?).any id) h
  simpa only [List.getElem?_map, Option.any_map, id_eq] using hat

variable (decls : Declarations)

/-- The binders can be gone through one by one. -/
theorem isPropositionUnder_eq (binders : List Expr) (e : Expr) :
    decls.isPropositionUnder binders.reverse e =
      decls.isPredicate (e.telescope binders).1.reverse (e.telescope binders).2.head.stripMeta := by
  induction e generalizing binders with
  | mdata e ih => exact ih binders
  | pi t b _ ihb =>
    rw [isPropositionUnder, telescope, ← ihb (binders ++ [t]), List.reverse_append]
    rfl
  | _ => rfl

/-- Whether a type is a proposition, with its binders innermost first. -/
theorem isProposition_eq (type : Expr) :
    decls.isProposition type = decls.isPropositionUnder [] type := by
  refine Eq.trans ?_ (decls.isPropositionUnder_eq [] type).symm
  unfold isProposition
  dsimp only
  cases (telescope [] type).2.head.stripMeta with
  | bvar i => exact congrArg (Option.any yieldsProp) (binderAt?_eq _ i.toNat)
  | _ => rfl

/-- Binders that stand around an expression come before those that are given, the innermost
first. -/
theorem isPropositionUnder_of_under {types : List Expr} {e inner : Expr} (h : e.Under types inner)
    (binders : List Expr) :
    decls.isPropositionUnder binders e =
      decls.isPropositionUnder (types.reverse ++ binders) inner := by
  induction h generalizing binders with
  | here e => rfl
  | mdata _ ih => exact ih binders
  | @pi type types _ _ _ ih =>
    rw [List.reverse_cons, List.append_assoc, List.singleton_append]
    exact ih (type :: binders)

/-- No binder stands around a variable that is applied. -/
theorem isPropositionUnder_of_head_bvar {e : Expr} {i : UInt32} (h : e.head.stripMeta = .bvar i)
    (binders : List Expr) :
    decls.isPropositionUnder binders e = (binders[i.toNat]?).any yieldsProp := by
  induction e with
  | mdata e ih =>
    refine ih ?_
    cases e with
    | mdata inner => exact h
    | bvar j => exact h
    | _ => cases h
  | pi t b => cases h
  | bvar j | app f a => exact congrArg (decls.isPredicate binders) h
  | _ => cases h

section Fresh

variable {decls} {extended : Declarations} {c : String} {b : Expr}
  (hadd : decls.add? c b = some extended) (hformer : c ∉ Builtin.propositionFormers)

include hadd hformer

/-- What is applied under a binder is a predicate exactly if it is one where a constant is declared
in place of the bound variable. -/
theorem isPredicate_instantiate {fn : Expr} (hfn : fn ≠ .const c) {inner inner' : List Expr}
    (outer : List Expr) (hinner : inner'.map yieldsProp = inner.map yieldsProp) :
    extended.isPredicate (inner' ++ outer) (fn.instantiate c inner.length) =
      decls.isPredicate (inner ++ b :: outer) fn := by
  have hall (i : Nat) : ((inner' ++ outer)[i]?).any yieldsProp =
      ((inner ++ outer)[i]?).any yieldsProp :=
    any_getElem?_congr (by rw [List.map_append, List.map_append, hinner]) i
  cases fn with
  | const d =>
    have hd : d ≠ c := fun h => hfn (congrArg Expr.const h)
    change (_ || (extended.find? d).any yieldsProp) = (_ || (decls.find? d).any yieldsProp)
    rw [find?_of_add? hadd, if_neg hd]
  | bvar i =>
    change _ = ((inner ++ b :: outer)[i.toNat]?).any yieldsProp
    rw [instantiate]
    rcases Nat.lt_trichotomy i.toNat inner.length with hi | hi | hi
    · -- a binder inside keeps its place
      rw [if_pos hi]
      change ((inner' ++ outer)[i.toNat]?).any yieldsProp = _
      rw [hall, List.getElem?_append_left hi, List.getElem?_append_left hi]
    · -- the binder itself: its type is the one that the constant is declared with
      rw [if_neg (by omega), if_pos hi, hi, List.getElem?_append_right (Nat.le_refl _),
        Nat.sub_self]
      change (Builtin.propositionFormers.contains c || (extended.find? c).any yieldsProp) =
        b.yieldsProp
      rw [find?_of_add? hadd, if_pos rfl, List.contains_eq_mem, decide_eq_false hformer]
      rfl
    · -- a binder outside is one place nearer, and a loose variable stays loose
      have hpred : (i - 1).toNat = i.toNat - 1 := UInt32.toNat_sub_of_le i 1 (by
        rw [UInt32.le_iff_toNat_le, UInt32.toNat_one]
        omega)
      rw [if_neg (by omega), if_neg (by omega)]
      change ((inner' ++ outer)[(i - 1).toNat]?).any yieldsProp = _
      rw [hall, hpred, getElem?_append_cons_of_lt hi]
  | _ => rfl

/-- At the end of the binders only the head counts, and it is not the new constant. -/
theorem isPredicate_head_instantiate {e : Expr} (hfresh : .const c ∉ e.subexpressions)
    {inner inner' : List Expr} (outer : List Expr)
    (hinner : inner'.map yieldsProp = inner.map yieldsProp) :
    extended.isPredicate (inner' ++ outer) (e.instantiate c inner.length).head.stripMeta =
      decls.isPredicate (inner ++ b :: outer) e.head.stripMeta := by
  rw [head_instantiate, stripMeta_instantiate]
  refine isPredicate_instantiate hadd hformer (fun h => hfresh ?_) outer hinner
  rw [← h]
  exact mem_subexpressions_trans (mem_subexpressions_stripMeta _) (mem_subexpressions_head e)

/-- A type under a binder is a proposition exactly if it is one where a constant is declared in
place of the bound variable, whatever binders stand inside and outside of that one. -/
theorem isPropositionUnder_instantiate {body : Expr} (hfresh : .const c ∉ body.subexpressions)
    (inner inner' outer : List Expr) (hinner : inner'.map yieldsProp = inner.map yieldsProp) :
    extended.isPropositionUnder (inner' ++ outer) (body.instantiate c inner.length) =
      decls.isPropositionUnder (inner ++ b :: outer) body := by
  induction body generalizing inner inner' with
  | mdata e ih => exact ih (fun h => hfresh (by simp [subexpressions, h])) inner inner' hinner
  | pi t body _ ih =>
    refine ih (fun h => hfresh (by simp [subexpressions, h])) (t :: inner)
      (t.instantiate c inner.length :: inner') ?_
    rw [List.map_cons, List.map_cons, yieldsProp_instantiate, hinner]
  | bvar i =>
    have hhead :
        extended.isPropositionUnder (inner' ++ outer) ((bvar i).instantiate c inner.length) =
        extended.isPredicate (inner' ++ outer)
          ((bvar i).instantiate c inner.length).head.stripMeta := by
      rcases instantiate_bvar_cases c i inner.length with ⟨j, h⟩ | h <;> rw [h] <;> rfl
    exact hhead.trans (isPredicate_head_instantiate hadd hformer hfresh outer hinner)
  | _ => exact isPredicate_head_instantiate hadd hformer hfresh outer hinner

end Fresh

/-- Whether a type is a proposition does not change where a bound variable gives way to a constant
that is declared with the type of the binder, if the constant is new. So a variable that is applied
is looked up at the binder that binds it: under binders with metadata anywhere between them it makes
a proposition exactly if there is a binder with as many others inside of it as the variable counts,
and its type is that of a predicate. A loose variable makes none. -/
theorem isProposition_by_binders (decls : Declarations) :
    (∀ (b body : Expr) (c : String), decls.find? c = none → c ∉ Builtin.propositionFormers →
      Expr.const c ∉ body.subexpressions →
      ∃ extended, decls.add? c b = some extended ∧
        decls.isProposition (.pi b body) = extended.isProposition (body.instantiate c 0)) ∧
    ∀ (types : List Expr) (e inner : Expr) (i : UInt32), e.Under types inner →
      inner.head.stripMeta = .bvar i →
      (decls.isProposition e = true ↔
        ∃ outside type inside, types = outside ++ type :: inside ∧ inside.length = i.toNat ∧
          type.yieldsProp = true) := by
  refine ⟨fun b body c hnone hformer hfresh => ?_, fun types e inner i hunder hhead => ?_⟩
  · obtain ⟨extended, hadd⟩ : ∃ extended, decls.add? c b = some extended := by
      rw [add?, hnone]
      exact ⟨_, rfl⟩
    refine ⟨extended, hadd, ?_⟩
    rw [isProposition_eq, isProposition_eq]
    exact (isPropositionUnder_instantiate hadd hformer hfresh [] [] [] rfl).symm
  · rw [isProposition_eq, isPropositionUnder_of_under _ hunder,
      isPropositionUnder_of_head_bvar _ hhead, List.append_nil, Option.any_eq_true]
    simp only [getElem?_reverse_eq_some_iff]
    constructor
    · rintro ⟨type, ⟨outside, inside, hsplit, hcount⟩, hyields⟩
      exact ⟨outside, type, inside, hsplit, hcount, hyields⟩
    · rintro ⟨outside, type, inside, hsplit, hcount, hyields⟩
      exact ⟨type, ⟨outside, inside, hsplit, hcount⟩, hyields⟩

/-- A bound predicate is found behind another binder and metadata, as it is when it is declared. -/
theorem isProposition_by_binders_predicate :
    let decls : Declarations := { types := [("zero", .natType)] }
    let predicate := Expr.pi .natType .prop
    let call := Expr.app (.mdata (.bvar 1)) (.bvar 0)
    let body := Expr.mdata (.pi .natType (.mdata call))
    decls.find? "P" = none ∧ "P" ∉ Builtin.propositionFormers ∧ .const "P" ∉ body.subexpressions ∧
    (∃ extended, decls.add? "P" predicate = some extended ∧
      decls.isProposition (.pi predicate body) = extended.isProposition (body.instantiate "P" 0)) ∧
    (.pi predicate body : Expr).Under [predicate, .natType] call ∧ call.head.stripMeta = .bvar 1 ∧
    decls.isProposition (.pi predicate body) = true := by
  intro decls predicate call body
  obtain ⟨hlaw, hresolved⟩ := isProposition_by_binders decls
  have hnone : decls.find? "P" = none := by decide
  have hformer : "P" ∉ Builtin.propositionFormers := by decide
  have hfresh : .const "P" ∉ body.subexpressions := by decide
  have hunder : (.pi predicate body : Expr).Under [predicate, .natType] call :=
    .pi (.mdata (.pi (.mdata (.here call))))
  have hhead : call.head.stripMeta = .bvar 1 := rfl
  exact ⟨hnone, hformer, hfresh, hlaw predicate body "P" hnone hformer hfresh, hunder, hhead,
    (hresolved _ _ _ 1 hunder hhead).mpr ⟨[], predicate, [.natType], rfl, rfl, rfl⟩⟩

end Declarations

end PropExport
