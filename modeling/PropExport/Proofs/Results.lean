/-!
# Results

Taking apart computations that may fail, with and without a state that they leave behind.
-/

namespace PropExport

variable {ε α β : Type}

/-- Two steps succeed only if the first one does and the second one does with what the first one
gives. -/
theorem exists_of_bind_eq_ok {x : Except ε α} {f : α → Except ε β} {r : β} (h : x >>= f = .ok r) :
    ∃ v, x = .ok v ∧ f v = .ok r := by
  cases x with
  | error e => cases h
  | ok v => exact ⟨v, rfl, h⟩

/-- Two steps that succeed one after the other. -/
theorem bind_eq_ok {x : Except ε α} {f : α → Except ε β} {v : α} {r : β} (h : x = .ok v)
    (hrest : f v = .ok r) : x >>= f = .ok r := by
  rw [h]
  exact hrest

/-- A result comes from the one that it was made of. -/
theorem exists_of_map_eq_ok {x : Except ε α} {f : α → β} {r : β} (h : x.map f = .ok r) :
    ∃ v, x = .ok v ∧ f v = r := by
  cases x with
  | error e => cases h
  | ok v => exact ⟨v, rfl, Except.ok.inj h⟩

/-- What is done with a result does not make it fail. -/
theorem map_eq_error_iff {x : Except ε α} {f : α → β} {e : ε} :
    x.map f = .error e ↔ x = .error e := by
  constructor
  · intro h
    cases x with
    | error e' => exact congrArg Except.error (Except.error.inj h)
    | ok v => cases h
  · rintro rfl
    rfl

/-- A result that is there is a success. -/
theorem eq_ok_of_toOption_eq_some {x : Except ε α} {v : α} (h : x.toOption = some v) :
    x = .ok v := by
  cases x with
  | error e => cases h
  | ok w => exact congrArg Except.ok (Option.some.inj h)

/-- What is told to be a success is one. -/
theorem exists_ok_of_toBool {x : Except ε α} (h : x.toBool = true) : ∃ v, x = .ok v := by
  cases x with
  | error e => cases h
  | ok v => exact ⟨v, rfl⟩

/-- What holds at the start of a fold and is kept by its steps holds at the end. -/
theorem foldlM_invariant {f : α → β → Except ε α} {xs : List β} {start r : α} (P : α → Prop)
    (hstart : P start) (hstep : ∀ a b, ∀ x ∈ xs, P a → f a x = .ok b → P b)
    (h : xs.foldlM f start = .ok r) : P r := by
  induction xs generalizing start with
  | nil =>
    cases h
    exact hstart
  | cons x xs ih =>
    rw [List.foldlM_cons] at h
    obtain ⟨next, hnext, hrest⟩ := exists_of_bind_eq_ok h
    have hkept : P next := hstep start next x (by simp) hstart hnext
    exact ih hkept (fun a b y hy => hstep a b y (List.mem_cons_of_mem x hy)) hrest

/-- A fold looks at its steps from the elements it meets only. -/
theorem foldlM_congr {f g : α → β → Except ε α} {xs : List β} (h : ∀ x ∈ xs, ∀ a, f a x = g a x)
    (start : α) : xs.foldlM f start = xs.foldlM g start := by
  induction xs generalizing start with
  | nil => rfl
  | cons x xs ih =>
    rw [List.foldlM_cons, List.foldlM_cons, h x (by simp)]
    exact congrArg (g start x >>= ·) (funext fun next => ih (fun y hy => h y (by simp [hy])) next)

/-- A fold that fails does so at one element, after the ones before it went through. -/
theorem foldlM_eq_error {f : α → β → Except ε α} {xs : List β} {start : α} {e : ε}
    (h : xs.foldlM f start = .error e) :
    ∃ before x after mid, xs = before ++ x :: after ∧ before.foldlM f start = .ok mid ∧
      f mid x = .error e := by
  induction xs generalizing start with
  | nil => cases h
  | cons x xs ih =>
    rw [List.foldlM_cons] at h
    cases hx : f start x with
    | error e' =>
      rw [hx] at h
      cases h
      exact ⟨[], x, xs, start, rfl, rfl, hx⟩
    | ok next =>
      rw [hx] at h
      obtain ⟨before, y, after, mid, rfl, hbefore, hy⟩ := ih h
      refine ⟨x :: before, y, after, mid, rfl, ?_, hy⟩
      rw [List.foldlM_cons, hx]
      exact hbefore

/-- A fold fails at an element at which its step fails, if it gets there. -/
theorem foldlM_of_error {f : α → β → Except ε α} {before after : List β} {x : β} {start mid : α}
    {e : ε} (hbefore : before.foldlM f start = .ok mid) (hx : f mid x = .error e) :
    (before ++ x :: after).foldlM f start = .error e := by
  rw [List.foldlM_append, hbefore]
  change (x :: after).foldlM f mid = .error e
  rw [List.foldlM_cons, hx]
  rfl

/-- Steps in order fail at the first one that fails. -/
theorem forM_eq_error_iff {f : α → Except ε Unit} {xs : List α} {e : ε} :
    forM xs f = .error e ↔
      ∃ before x after, xs = before ++ x :: after ∧ (∀ y ∈ before, f y = .ok ()) ∧
        f x = .error e := by
  induction xs with
  | nil =>
    constructor
    · intro h
      cases h
    · rintro ⟨before, x, after, hnil, _⟩
      simp at hnil
  | cons y ys ih =>
    rw [List.forM_cons]
    constructor
    · intro h
      cases hy : f y with
      | error e' =>
        rw [hy] at h
        cases h
        exact ⟨[], y, ys, rfl, by simp, hy⟩
      | ok u =>
        rw [hy] at h
        obtain ⟨before, x, after, rfl, hbefore, hx⟩ := ih.mp h
        exact ⟨y :: before, x, after, rfl, List.forall_mem_cons.mpr ⟨hy, hbefore⟩, hx⟩
    · rintro ⟨before, x, after, hsplit, hbefore, hx⟩
      cases before with
      | nil =>
        obtain ⟨rfl, rfl⟩ := List.cons.inj hsplit
        rw [hx]
        rfl
      | cons z before =>
        obtain ⟨rfl, rfl⟩ := List.cons.inj hsplit
        rw [hbefore y (by simp)]
        exact ih.mpr ⟨before, x, after, rfl, fun z hz => hbefore z (by simp [hz]), hx⟩

/-- Steps in order succeed exactly if each of them does. -/
theorem forM_eq_ok_iff {f : α → Except ε Unit} {xs : List α} :
    forM xs f = .ok () ↔ ∀ x ∈ xs, f x = .ok () := by
  constructor
  · intro h x hx
    obtain ⟨before, after, rfl⟩ := List.append_of_mem hx
    rw [List.forM_append] at h
    obtain ⟨_, _, hrest⟩ := exists_of_bind_eq_ok h
    rw [List.forM_cons] at hrest
    obtain ⟨_, hfx, _⟩ := exists_of_bind_eq_ok hrest
    exact hfx
  · intro h
    cases hall : forM xs f with
    | ok u => rfl
    | error e =>
      obtain ⟨before, x, after, rfl, _, hx⟩ := forM_eq_error_iff.mp hall
      rw [h x (by simp)] at hx
      cases hx

section Stateful

variable {σ : Type} {x : ExceptT ε (StateM σ) α} {f : α → ExceptT ε (StateM σ) β} {s t : σ}

/-- After a success the next operation runs. -/
theorem bind_of_ok {v : α} (h : x s = (.ok v, t)) : (x >>= f) s = f v t := by
  change (ExceptT.bindCont f (x s).1) (x s).2 = _
  rw [h]
  rfl

/-- After a failure nothing more runs. -/
theorem bind_of_error {e : ε} (h : x s = (.error e, t)) : (x >>= f) s = (.error e, t) := by
  change (ExceptT.bindCont f (x s).1) (x s).2 = _
  rw [h]
  rfl

/-- A success is that of both operations. -/
theorem of_bind_eq_ok {v : β} (h : (x >>= f) s = (.ok v, t)) :
    ∃ u mid, x s = (.ok u, mid) ∧ f u mid = (.ok v, t) := by
  rcases hx : x s with ⟨e | u, mid⟩
  · rw [bind_of_error hx] at h
    cases h
  · rw [bind_of_ok hx] at h
    exact ⟨u, mid, rfl, h⟩

/-- A result without a state leaves the state as it is. -/
theorem ofExcept_apply (r : Except ε α) (s : σ) :
    (MonadExcept.ofExcept r : ExceptT ε (StateM σ) α) s = (r, s) := by
  cases r <;> rfl

/-- After a success without a state the next operation runs. -/
theorem ofExcept_bind_of_ok {r : Except ε α} {v : α} (h : r = .ok v) (s : σ) :
    (MonadExcept.ofExcept r >>= f) s = f v s :=
  bind_of_ok (h ▸ ofExcept_apply (.ok v) s)

/-- A success after a result without a state. -/
theorem of_ofExcept_bind_eq_ok {r : Except ε α} {v : β}
    (h : ((MonadExcept.ofExcept r : ExceptT ε (StateM σ) α) >>= f) s = (.ok v, t)) :
    ∃ u, r = .ok u ∧ f u s = (.ok v, t) := by
  obtain ⟨u, mid, hresult, hrest⟩ := of_bind_eq_ok h
  rw [ofExcept_apply] at hresult
  obtain ⟨rfl, rfl⟩ := Prod.mk.inj hresult
  exact ⟨u, rfl, hrest⟩

/-- Looking at the state changes nothing. -/
theorem get_bind (f : σ → ExceptT ε (StateM σ) β) (s : σ) : (get >>= f) s = f s s :=
  bind_of_ok rfl

end Stateful

end PropExport
