/-!
# Symbol tables

Which target name stands for which declaration. A table keeps its names in the order in which they
were first bound; binding a name again replaces its target in place.
-/

namespace PropExport

namespace SymbolTable

/-- Binds a name in a list of bindings: in place if it is there, else at the end. -/
def bindIn (key target : String) : List (String × String) → List (String × String)
  | [] => [(key, target)]
  | (k, t) :: rest => if k = key then (k, target) :: rest else (k, t) :: bindIn key target rest

private theorem mem_keys_bindIn {k key target : String} {bindings : List (String × String)} :
    k ∈ (bindIn key target bindings).map Prod.fst ↔ k = key ∨ k ∈ bindings.map Prod.fst := by
  induction bindings with
  | nil => simp [bindIn]
  | cons b rest ih =>
    obtain ⟨k', t'⟩ := b
    by_cases h : k' = key
    · simp [bindIn, h]
    · simp only [bindIn, h, if_false, List.map_cons, List.mem_cons, ih]
      exact or_left_comm

private theorem nodup_keys_bindIn {key target : String} {bindings : List (String × String)}
    (h : (bindings.map Prod.fst).Nodup) : ((bindIn key target bindings).map Prod.fst).Nodup := by
  induction bindings with
  | nil => simp [bindIn]
  | cons b rest ih =>
    obtain ⟨k', t'⟩ := b
    rw [List.map_cons, List.nodup_cons] at h
    by_cases hk : k' = key
    · simpa [bindIn, hk] using h
    · simp only [bindIn, hk, if_false, List.map_cons, List.nodup_cons]
      refine ⟨fun hmem => ?_, ih h.2⟩
      rcases mem_keys_bindIn.1 hmem with heq | hrest
      · exact hk heq
      · exact h.1 hrest

private theorem lookup_bindIn (key target decl : String) (bindings : List (String × String)) :
    (bindIn key target bindings).lookup decl =
      if decl = key then some target else bindings.lookup decl := by
  induction bindings with
  | nil =>
    by_cases h : decl = key
    · simp [bindIn, h]
    · simp [bindIn, List.lookup_cons, h, beq_eq_false_iff_ne.mpr h]
  | cons b rest ih =>
    obtain ⟨k, t⟩ := b
    by_cases hd : decl = k
    · subst hd
      by_cases hk : decl = key <;> simp [bindIn, hk]
    · by_cases hk : k = key
      · subst hk
        simp [bindIn, List.lookup_cons, hd, beq_eq_false_iff_ne.mpr hd]
      · simp [bindIn, List.lookup_cons, hk, ih, beq_eq_false_iff_ne.mpr hd]

/-- Where no name is bound twice, looking up a name finds its binding. -/
theorem lookup_of_mem {key target : String} {bindings : List (String × String)}
    (hnodup : (bindings.map Prod.fst).Nodup) (h : (key, target) ∈ bindings) :
    bindings.lookup key = some target := by
  induction bindings with
  | nil => cases h
  | cons b rest ih =>
    obtain ⟨k, t⟩ := b
    rw [List.map_cons, List.nodup_cons] at hnodup
    rcases List.mem_cons.mp h with heq | hrest
    · obtain ⟨rfl, rfl⟩ := Prod.mk.inj heq
      simp
    · have hne : key ≠ k := by
        rintro rfl
        exact hnodup.1 (List.mem_map.mpr ⟨(key, target), hrest, rfl⟩)
      rw [List.lookup_cons, beq_eq_false_iff_ne.mpr hne]
      exact ih hnodup.2 hrest

end SymbolTable

/-- A table of bindings. No name is bound twice. -/
structure SymbolTable where
  bindings : List (String × String)
  nodup_keys : (bindings.map Prod.fst).Nodup

namespace SymbolTable

/-- The table without bindings. -/
def empty : SymbolTable where
  bindings := []
  nodup_keys := List.nodup_nil

instance : Inhabited SymbolTable := ⟨empty⟩

/-- The target of a name. -/
def find? (table : SymbolTable) (key : String) : Option String :=
  table.bindings.lookup key

/-- Binds a name to a target. -/
def insert (table : SymbolTable) (key target : String) : SymbolTable where
  bindings := bindIn key target table.bindings
  nodup_keys := nodup_keys_bindIn table.nodup_keys

/-- A binding changes the target of its own name and no other. -/
theorem find?_insert (table : SymbolTable) (key target decl : String) :
    (table.insert key target).find? decl = if decl = key then some target else table.find? decl :=
  lookup_bindIn key target decl table.bindings

/-- The number of bound names. -/
def size (table : SymbolTable) : Nat :=
  table.bindings.length

/-- Whether two tables give every name the same target, in whatever order it was bound. -/
def agrees (a b : SymbolTable) : Bool :=
  a.size == b.size && a.bindings.all fun (key, target) => b.find? key == some target

end SymbolTable

end PropExport
