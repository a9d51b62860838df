import PropExport.Proofs.Json.Decode

/-!
# The written form of expressions

An expression is decoded from its JSON form whenever that form opens no more brackets than allowed,
and a value that decodes to an expression nests as deep as the form of the expression does.
-/

namespace PropExport

namespace Literal

/-- A literal is decoded from its own JSON. -/
theorem ofJson_toJson (scanning : Bool) (l : Literal) : ofJson scanning l.toJson = .ok l := by
  cases l with
  | nat n =>
    have hnatural : (if n < UInt64.size then Json.nat n else .str (toString n)).natural =
        .ok n := by
      split
      · next hn => rw [Json.natural, if_pos hn]
      · rw [Json.natural, Numeral.parse_toString]
    rw [toJson, ofJson, Json.variant_singleton]
    change (Json.natural _).map Literal.nat = _
    rw [hnatural]
    rfl
  | str s =>
    rw [toJson, ofJson, Json.variant_singleton]
    rfl

/-- The JSON of a literal nests one bracket. -/
theorem depth_toJson (l : Literal) : l.toJson.depth = 1 := by
  cases l with
  | nat n =>
    rw [toJson]
    split <;> rfl
  | str s => rfl

/-- The JSON of a literal is plain. -/
theorem isPlain_toJson (l : Literal) : l.toJson.isPlain = true := by
  cases l with
  | nat n =>
    rw [toJson]
    split
    · next hn => simpa [Json.isPlain_obj_iff, Json.isPlain_nat_iff] using hn
    · rfl
  | str s => rfl

end Literal

namespace Expr

variable {scanning : Bool} {budget : Nat}

section Decode

variable {name : String} {v w : Json}

/-- What stands in an object with one member may open a bracket less. -/
private theorem exists_inner (h : (Json.obj [(name, v)]).depth ≤ budget) :
    ∃ inner, budget = inner + 1 ∧ v.depth ≤ inner := by
  rw [Json.depth_member] at h
  exact ⟨budget - 1, by omega, by omega⟩

/-- Two operands are decoded inside the two brackets that they stand in. -/
private theorem exists_operands {e e' : Expr}
    (hv : ∀ budget, v.depth ≤ budget → ofJson scanning budget v = .ok e)
    (hw : ∀ budget, w.depth ≤ budget → ofJson scanning budget w = .ok e')
    (h : (Json.obj [(name, .arr [v, w])]).depth ≤ budget) :
    ∃ inner, budget = inner + 2 ∧
      Json.pair (ofJson scanning inner) (ofJson scanning inner) (.arr [v, w]) = .ok (e, e') := by
  obtain ⟨outer, rfl, hpair⟩ := exists_inner h
  rw [Json.depth_pair] at hpair
  have hinner : max v.depth w.depth ≤ outer - 1 := by omega
  refine ⟨outer - 1, by omega, Json.pair_two (hv _ ?_) (hw _ ?_)⟩
  · exact Nat.le_trans (Nat.le_max_left _ _) hinner
  · exact Nat.le_trans (Nat.le_max_right _ _) hinner

/-- An expression is decoded from its JSON form if that opens no more brackets than allowed. -/
theorem ofJson_toJson (scanning : Bool) (e : Expr) :
    ∀ budget, e.toJson.depth ≤ budget → ofJson scanning budget e.toJson = .ok e := by
  induction e with
  | bvar i =>
    intro budget h
    obtain ⟨inner, rfl, _⟩ := exists_inner h
    rw [toJson, ofJson, Json.variant_singleton]
    change (Json.word32 (.nat i.toNat)).map bvar = _
    rw [Json.word32_toNat]
    rfl
  | sort n =>
    intro budget h
    obtain ⟨inner, rfl, _⟩ := exists_inner h
    rw [toJson, ofJson, Json.variant_singleton]
    change (Json.word32 (.nat n.toNat)).map sort = _
    rw [Json.word32_toNat]
    rfl
  | const c =>
    intro budget h
    obtain ⟨inner, rfl, _⟩ := exists_inner h
    rw [toJson, ofJson, Json.variant_singleton]
    rfl
  | app f a ihf iha =>
    intro budget h
    obtain ⟨inner, rfl, hpair⟩ := exists_operands ihf iha h
    rw [toJson, ofJson, Json.variant_singleton]
    change (Json.pair _ _ _).map _ = _
    rw [hpair]
    rfl
  | lam t b iht ihb =>
    intro budget h
    obtain ⟨inner, rfl, hpair⟩ := exists_operands iht ihb h
    rw [toJson, ofJson, Json.variant_singleton]
    change (Json.pair _ _ _).map _ = _
    rw [hpair]
    rfl
  | pi t b iht ihb =>
    intro budget h
    obtain ⟨inner, rfl, hpair⟩ := exists_operands iht ihb h
    rw [toJson, ofJson, Json.variant_singleton]
    change (Json.pair _ _ _).map _ = _
    rw [hpair]
    rfl
  | lit l =>
    intro budget h
    obtain ⟨inner, rfl, hl⟩ := exists_inner h
    rw [l.depth_toJson] at hl
    rw [toJson, ofJson, Json.variant_singleton]
    change (if inner = 0 then _ else (Literal.ofJson scanning l.toJson).map lit) = _
    rw [if_neg (by omega), l.ofJson_toJson]
    rfl
  | mdata e ih =>
    intro budget h
    obtain ⟨inner, rfl, he⟩ := exists_inner h
    rw [toJson, ofJson, Json.variant_singleton]
    change (ofJson scanning inner e.toJson).map mdata = _
    rw [ih inner he]
    rfl

/-- Two operands are decoded from an array of two elements, with a bracket less. -/
private theorem exists_of_operands_eq_ok {f a : Expr}
    (h : (match budget with
      | 0 => fun _ => .error .malformed
      | inner + 1 => Json.pair (ofJson scanning inner) (ofJson scanning inner) :
        Json → Decoded (Expr × Expr)) w = .ok (f, a)) :
    ∃ inner x y, budget = inner + 1 ∧ w = .arr [x, y] ∧ ofJson scanning inner x = .ok f ∧
      ofJson scanning inner y = .ok a := by
  obtain _ | inner := budget
  · cases h
  obtain ⟨x, y, rfl, hx, hy⟩ := Json.pair_eq_ok h
  exact ⟨inner, x, y, rfl, rfl, hx, hy⟩

/-- A value that decodes to an expression nests at least as deep as the form of the expression. -/
theorem depth_le_of_ofJson {e : Expr} (h : ofJson scanning budget v = .ok e) :
    e.toJson.depth ≤ v.depth := by
  induction budget using Nat.strongRecOn generalizing v e with
  | ind budget ih =>
    obtain _ | budget := budget
    · cases h
    rw [ofJson] at h
    obtain ⟨name, w, rfl, hw⟩ := Json.variant_eq_ok h
    have hoperands {f a : Expr} {inner : Nat} {x y : Json} (hinner : budget = inner + 1)
        (hw : w = .arr [x, y]) (hx : ofJson scanning inner x = .ok f)
        (hy : ofJson scanning inner y = .ok a) :
        (Json.arr [f.toJson, a.toJson]).depth ≤ w.depth := by
      have hf := ih inner (by omega) hx
      have ha := ih inner (by omega) hy
      rw [hw, Json.depth_pair, Json.depth_pair]
      omega
    rw [Json.depth_member]
    split at hw
    · obtain ⟨i, _, rfl⟩ := exists_of_map_eq_ok hw
      simp [toJson, Json.depth_member, Json.depth]
    · obtain ⟨n, _, rfl⟩ := exists_of_map_eq_ok hw
      simp [toJson, Json.depth_member, Json.depth]
    · obtain ⟨c, _, rfl⟩ := exists_of_map_eq_ok hw
      simp [toJson, Json.depth_member, Json.depth]
    · obtain ⟨⟨f, a⟩, hpair, rfl⟩ := exists_of_map_eq_ok hw
      rw [toJson, Json.depth_member]
      obtain ⟨inner, x, y, hinner, hx, hy, hxy⟩ := exists_of_operands_eq_ok hpair
      exact Nat.succ_le_succ (hoperands hinner hx hy hxy)
    · obtain ⟨⟨t, b⟩, hpair, rfl⟩ := exists_of_map_eq_ok hw
      rw [toJson, Json.depth_member]
      obtain ⟨inner, x, y, hinner, hx, hy, hxy⟩ := exists_of_operands_eq_ok hpair
      exact Nat.succ_le_succ (hoperands hinner hx hy hxy)
    · obtain ⟨⟨t, b⟩, hpair, rfl⟩ := exists_of_map_eq_ok hw
      rw [toJson, Json.depth_member]
      obtain ⟨inner, x, y, hinner, hx, hy, hxy⟩ := exists_of_operands_eq_ok hpair
      exact Nat.succ_le_succ (hoperands hinner hx hy hxy)
    · split at hw
      · cases hw
      · obtain ⟨l, hl, rfl⟩ := exists_of_map_eq_ok hw
        obtain ⟨kind, x, rfl, _⟩ := Json.variant_eq_ok hl
        rw [toJson, Json.depth_member, Json.depth_member, l.depth_toJson]
        omega
    · obtain ⟨e, he, rfl⟩ := exists_of_map_eq_ok hw
      rw [toJson, Json.depth_member]
      exact Nat.succ_le_succ (ih budget (by omega) he)
    · cases hw

end Decode

/-- The form of an expression holds no number of more than 64 bits. -/
theorem isPlain_toJson (e : Expr) : e.toJson.isPlain = true := by
  have hmember (name : String) {v : Json} (h : v.isPlain = true) :
      (Json.obj [(name, v)]).isPlain = true := by
    simpa [Json.isPlain_obj_iff] using h
  have hpair (name : String) {v w : Json} (hv : v.isPlain = true) (hw : w.isPlain = true) :
      (Json.obj [(name, .arr [v, w])]).isPlain = true := by
    simpa [Json.isPlain_obj_iff, Json.isPlain_arr_iff] using ⟨hv, hw⟩
  have hword (i : UInt32) : (Json.nat i.toNat).isPlain = true :=
    Json.isPlain_nat_iff.mpr (Nat.lt_trans i.toNat_lt (by decide))
  induction e with
  | bvar i => exact hmember "bvar" (hword i)
  | sort n => exact hmember "sort" (hword n)
  | const c => rfl
  | app f a ihf iha => exact hpair "app" ihf iha
  | lam t b iht ihb => exact hpair "lam" iht ihb
  | pi t b iht ihb => exact hpair "pi" iht ihb
  | lit l => exact hmember "lit" l.isPlain_toJson
  | mdata e ih => exact hmember "mdata" ih

end Expr

end PropExport
