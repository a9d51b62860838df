import PropExport.Expr.Json
import PropExport.Proofs.Json.RoundTrip
import PropExport.Proofs.Results

/-!
# Decoders

What the decoders of the common shapes give back for a value that was encoded in their shape, and
how deep a value must nest that a decoder takes apart.
-/

namespace PropExport.Json

section Nesting

private theorem depth_arr (elems : List Json) : (arr elems).depth = depthElems elems + 1 := by
  rw [depth]

private theorem depth_obj (members : List (String × Json)) :
    (obj members).depth = depthMembers members + 1 := by
  rw [depth]

/-- An object with one member nests one bracket more than the member. -/
theorem depth_member (name : String) (v : Json) : (obj [(name, v)]).depth = v.depth + 1 := by
  simp [depth, depthMembers]

/-- A pair nests one bracket more than the deeper one of its values. -/
theorem depth_pair (v w : Json) : (arr [v, w]).depth = max v.depth w.depth + 1 := by
  simp [depth, depthElems]

private theorem depthElems_le_iff {elems : List Json} {n : Nat} :
    depthElems elems ≤ n ↔ ∀ v ∈ elems, v.depth ≤ n := by
  induction elems with
  | nil => simp [depthElems]
  | cons v vs ih => rw [depthElems, Nat.max_le, ih, List.forall_mem_cons]

/-- Elements are within a depth exactly if each of them is. -/
theorem depthElems_map_le_iff {α : Type} {encode : α → Json} {xs : List α} {n : Nat} :
    depthElems (xs.map encode) ≤ n ↔ ∀ x ∈ xs, (encode x).depth ≤ n := by
  rw [depthElems_le_iff, List.forall_mem_map]

private theorem depthMembers_le_iff {members : List (String × Json)} {n : Nat} :
    depthMembers members ≤ n ↔ ∀ m ∈ members, m.2.depth ≤ n := by
  induction members with
  | nil => simp [depthMembers]
  | cons m ms ih => rw [depthMembers, Nat.max_le, ih, List.forall_mem_cons]

/-- The fields of a record nest less deep than the record. -/
theorem depth_lt_of_fields {names : List String} {v : Json} {members : List (String × Json)}
    (h : v.fields names = .ok members) : ∀ m ∈ members, m.2.depth < v.depth := by
  intro m hm
  unfold fields at h
  split at h
  · cases h
    rw [depth_obj]
    exact Nat.lt_succ_of_le (depthMembers_le_iff.mp (Nat.le_refl _) m hm)
  · next elems =>
    cases h
    rw [depth_arr]
    obtain hzip | hextra := List.mem_append.mp hm
    · have helem : m.2 ∈ elems := (List.of_mem_zip hzip).2
      exact Nat.lt_succ_of_le (depthElems_le_iff.mp (Nat.le_refl _) m.2 helem)
    · -- an element too many is only marked
      have hfault : m.2 = .fault := by
        split at hextra <;> simp_all
      simp [hfault, depth]
  · cases h

/-- A record without its tag nests no deeper than with it. -/
theorem depth_le_of_tagged {tag name : String} {v record : Json}
    (h : v.tagged tag = .ok (name, record)) : record.depth ≤ v.depth := by
  unfold tagged at h
  split at h
  · next members =>
    split at h
    · cases h
      rw [depth_obj, depth_obj]
      refine Nat.succ_le_succ (depthMembers_le_iff.mpr fun m hm => ?_)
      exact depthMembers_le_iff.mp (Nat.le_refl _) m (List.mem_filter.mp hm).1
    · cases h
  · cases h
    rw [depth_arr, depth_arr]
    refine Nat.succ_le_succ (depthElems_le_iff.mpr fun v hv => ?_)
    exact depthElems_le_iff.mp (Nat.le_refl _) v (List.mem_cons_of_mem _ hv)
  · cases h

/-- A value that was encoded is collected if it opens no more brackets than allowed. -/
theorem collected_of_isPlain {v : Json} {budget : Nat} (h : v.isPlain = true)
    (hdepth : v.depth ≤ budget) : v.collected budget = .ok () := by
  rw [collected, isLegible_of_isPlain h]
  simp [hdepth]

/-- A value that could be collected is within the nesting limit. -/
theorem depth_le_of_collected {v : Json} {budget : Nat} (h : v.collected budget = .ok ()) :
    v.depth ≤ budget := by
  unfold collected at h
  split at h
  · next hv =>
    rw [Bool.and_eq_true, decide_eq_true_eq] at hv
    exact hv.2
  · cases h

end Nesting

section Lists

variable {α : Type} {decode : Json → Decoded α}

/-- Decoding element by element undoes encoding element by element. -/
theorem list_map {encode : α → Json} (xs : List α) (h : ∀ x ∈ xs, decode (encode x) = .ok x) :
    list decode (.arr (xs.map encode)) = .ok xs := by
  rw [list]
  induction xs with
  | nil => rfl
  | cons x xs ih =>
    rw [List.map_cons, List.mapM_cons, h x (by simp),
      ih fun y hy => h y (List.mem_cons_of_mem x hy)]
    rfl

/-- Every element of a list was decoded. -/
theorem exists_of_list_eq_ok {v : Json} {xs : List α} (h : list decode v = .ok xs) :
    ∀ x ∈ xs, ∃ w, decode w = .ok x := by
  unfold list at h
  split at h
  · next elems =>
    induction elems generalizing xs with
    | nil =>
      cases h
      simp
    | cons w ws ih =>
      rw [List.mapM_cons] at h
      obtain ⟨y, hy, hrest⟩ := exists_of_bind_eq_ok h
      obtain ⟨ys, hys, hlist⟩ := exists_of_bind_eq_ok hrest
      cases hlist
      exact List.forall_mem_cons.mpr ⟨⟨w, hy⟩, ih hys⟩
  · cases h

end Lists

/-- A word of 32 bits is decoded from its number. -/
theorem word32_toNat (i : UInt32) : word32 (.nat i.toNat) = .ok i := by
  rw [word32, natBelow, if_pos i.toNat_lt]
  exact congrArg Except.ok UInt32.ofNat_toNat

/-- A word of 64 bits is decoded from its number. -/
theorem word64_toNat (i : UInt64) : word64 (.nat i.toNat) = .ok i := by
  rw [word64, natBelow, if_pos i.toNat_lt]
  exact congrArg Except.ok UInt64.ofNat_toNat

/-- A slot is filled only with what its field decodes to. -/
theorem exists_of_fill_eq_ok {α : Type} {slot filled : Option α} {value : Decoded α}
    (h : fill slot value = .ok filled) : ∃ a, value = .ok a ∧ filled = some a := by
  cases slot with
  | some _ => cases h
  | none =>
    obtain ⟨a, ha, rfl⟩ := exists_of_map_eq_ok h
    exact ⟨a, ha, rfl⟩

/-- A required field was there. -/
theorem eq_some_of_required {α : Type} {slot : Option α} {a : α} (h : required slot = .ok a) :
    slot = some a := by
  cases slot with
  | some _ =>
    cases h
    rfl
  | none => cases h

section Variants

variable {α β : Type} {scanning : Bool}

/-- An object with one member stands for the variant that its member names. -/
theorem variant_singleton (decode : String → Json → Decoded α) (name : String) (v : Json) :
    variant scanning decode (.obj [(name, v)]) = decode name v := by
  rw [variant]
  cases scanning <;> cases decode name v <;> rfl

/-- Only an object with one member is decoded. -/
theorem variant_eq_ok {decode : String → Json → Decoded α} {v : Json} {a : α}
    (h : variant scanning decode v = .ok a) :
    ∃ name w, v = .obj [(name, w)] ∧ decode name w = .ok a := by
  unfold variant at h
  split at h
  · next name w rest =>
    cases rest with
    | nil => exact ⟨name, w, rfl, (variant_singleton decode name w).symm.trans h⟩
    | cons m ms =>
      -- a second member is refused at once or after the first one
      cases scanning with
      | false => cases h
      | true =>
        obtain ⟨found, _, hfound⟩ := exists_of_bind_eq_ok (x := decode name w) h
        cases hfound
  · cases h

/-- A pair is decoded from an array of two values. -/
theorem pair_two {first : Json → Decoded α} {second : Json → Decoded β} {v w : Json} {a : α} {b : β}
    (hfirst : first v = .ok a) (hsecond : second w = .ok b) :
    pair first second (.arr [v, w]) = .ok (a, b) := by
  rw [pair, hfirst]
  change (second w >>= fun b => _) = _
  rw [hsecond]
  rfl

/-- Only an array of two elements is decoded. -/
theorem pair_eq_ok {first : Json → Decoded α} {second : Json → Decoded β} {v : Json} {a : α} {b : β}
    (h : pair first second v = .ok (a, b)) :
    ∃ x y, v = .arr [x, y] ∧ first x = .ok a ∧ second y = .ok b := by
  unfold pair at h
  split at h
  · next x ys =>
    obtain ⟨a', ha, hrest⟩ := exists_of_bind_eq_ok h
    cases ys with
    | nil => cases hrest
    | cons y ys =>
      obtain ⟨b', hb, hpair⟩ := exists_of_bind_eq_ok hrest
      cases ys with
      | nil =>
        cases hpair
        exact ⟨x, y, rfl, ha, hb⟩
      | cons z zs => cases hpair
  · cases h

end Variants

end PropExport.Json

namespace PropExport.Document

variable {α : Type} {decode : Json → Decoded α}

/-- Decoding the written form of a plain value is decoding the value. -/
theorem decode_written (layout : Json.Layout) {v : Json} (h : v.isPlain = true) :
    Document.decode decode (v.written layout 0) = decode v := by
  rw [Document.decode, read_written layout h]
  change (decode v >>= fun value => pure value) = decode v
  cases decode v <;> rfl

/-- A text that could be decoded holds a value that can be decoded. -/
theorem decode_eq_ok {text : String} {a : α} (h : Document.decode decode text = .ok a) :
    decode (Document.read text).root = .ok a := by
  obtain ⟨value, hvalue, hclosed⟩ := exists_of_bind_eq_ok h
  split at hclosed
  · cases hclosed
    exact hvalue
  · cases hclosed

end PropExport.Document
