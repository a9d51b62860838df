import PropExport.Proofs.Imports.Walk

/-!
# The first failure of a walk

A walk that fails does so at the first of the given units from which it would fail on its own, and
with the same failure. What was finished for the units before does not matter: a walk skips finished
units, but without them it would go through their trees, which hold no failure, and come to the same
place.
-/

namespace PropExport.ImportGraph

open Relation

variable {g : ImportGraph}

/-- A trail of different units that all reach a unit through imports. -/
structure LeadsTo (g : ImportGraph) (trail : List String) (unit : String) : Prop where
  nodup : trail.Nodup
  reaches : ∀ other ∈ trail, TransGen g.Imports other unit

namespace LeadsTo

variable {trail : List String} {unit : String}

/-- The empty trail leads to every unit. -/
theorem nil (g : ImportGraph) (unit : String) : g.LeadsTo [] unit :=
  ⟨List.nodup_nil, by simp⟩

/-- A unit that is not on the trail takes it to what the unit imports. -/
theorem concat (h : g.LeadsTo trail unit) (hnew : unit ∉ trail) {name : String}
    (himports : g.Imports unit name) : g.LeadsTo (trail ++ [unit]) name where
  nodup := nodup_concat h.nodup hnew
  reaches := by
    intro other hother
    rcases List.mem_append.mp hother with hother | hother
    · exact .tail (h.reaches other hother) himports
    · rw [List.mem_singleton.mp hother]
      exact .single himports

/-- The units of a trail load, since each of them imports something. -/
theorem loads (h : g.LeadsTo trail unit) {other : String} (hother : other ∈ trail) :
    g.Loads other :=
  loads_of_transGen (h.reaches other hother)

end LeadsTo

section Walk

variable {bound n : Nat} {trail met : List String} {unit : String}
  (hbound : g.LoadsAtMost bound) (hn : bound < n + trail.length)

include hbound hn

/-- A visit to a unit with a tree of imports below it succeeds, whatever is finished. -/
theorem visit_ne_error_of_postOrder {finished tree : List String} (htrail : g.LeadsTo trail unit)
    (htree : g.PostOrder [unit] tree) (e : Failure) : g.visit n trail finished unit ≠ .error e := by
  intro h
  have hmem {other : String} (hpath : ReflTransGen g.Imports unit other) : other ∈ tree :=
    htree.mem_iff_reaches.mpr ⟨unit, by simp, hpath⟩
  rcases visit_eq_error htrail.nodup h with
    ⟨other, hpath, hother⟩ | ⟨path, last, _, hchain, hhead, hnodup, hend⟩
  · exact (htree.loads (hmem hpath)).ne_error e hother
  · obtain ⟨hreach, hpairs⟩ := reaches_of_isChain hchain hhead
    have hpath := (List.pairwise_append.mp hpairs).2.2
    have hlast : ReflTransGen g.Imports unit last := hreach last (by simp)
    rcases hend with hend | hlong
    · rcases List.mem_append.mp hend with hend | hend
      · -- back on the trail, the unit would import itself
        exact htree.acyclic (hmem .refl) ((htrail.reaches last hend).trans_right hlast)
      · exact htree.acyclic (hmem hlast) (hpath last hend last (by simp))
    · -- the trail is as long as the bound, so too many units load
      have hloads : ∀ other ∈ trail ++ path, g.Loads other := by
        intro other hother
        rcases List.mem_append.mp hother with hother | hother
        · exact htrail.loads hother
        · exact loads_of_transGen (hpath other hother last (by simp))
      have := hbound (trail ++ path) hnodup hloads
      rw [List.length_append] at this
      omega

/-- Units with trees of imports below them are finished one after the other. -/
theorem foldlM_visit_of_postOrder {names visits : List String}
    (htrail : ∀ name ∈ names, g.LeadsTo trail name) (hmet : g.Complete met)
    (h : g.PostOrder names visits) :
    names.foldlM (g.visit n trail) met.eraseDups = .ok (met ++ visits).eraseDups := by
  cases hfold : names.foldlM (g.visit n trail) met.eraseDups with
  | error e =>
    obtain ⟨before, name, after, mid, rfl, _, hname⟩ := foldlM_eq_error hfold
    obtain ⟨tree, htree, _⟩ := h.subtree (h.subset (show name ∈ before ++ name :: after by simp))
    exact absurd hname (visit_ne_error_of_postOrder hbound hn (htrail name (by simp)) htree e)
  | ok out =>
    obtain ⟨visits', hvisits', rfl⟩ := (finishes_visit g n trail).foldlM hmet hfold
    rw [h.unique hvisits']

end Walk

/-- A visit that fails with some units finished fails in the same way with fewer of them
finished. -/
theorem visit_eq_error_of_subset {bound n : Nat} {trail met met' : List String} {unit : String}
    {e : Failure} (hbound : g.LoadsAtMost bound) (hn : bound < n + trail.length)
    (htrail : g.LeadsTo trail unit) (hmet : g.Complete met) (hmet' : g.Complete met')
    (hsub : met' ⊆ met) (h : g.visit n trail met.eraseDups unit = .error e) :
    g.visit n trail met'.eraseDups unit = .error e := by
  induction n generalizing trail met met' unit with
  | zero => exact h
  | succ n ih =>
    by_cases hfinished : unit ∈ met.eraseDups
    · rw [visit_of_mem_finished hfinished] at h
      cases h
    have hfinished' : unit ∉ met'.eraseDups := fun hmem =>
      hfinished (List.mem_eraseDups.mpr (hsub (List.mem_eraseDups.mp hmem)))
    by_cases hmem : unit ∈ trail
    · rw [visit_of_mem_trail hfinished hmem] at h
      rw [visit_of_mem_trail hfinished' hmem, h]
    cases hload : g unit with
    | error e' =>
      rw [visit_of_error hfinished hmem hload] at h
      rw [visit_of_error hfinished' hmem hload, h]
    | ok imports =>
      rw [visit_of_ok hfinished hmem hload, map_eq_error_iff] at h
      rw [visit_of_ok hfinished' hmem hload, map_eq_error_iff]
      obtain ⟨before, name, after, mid, rfl, hbefore, hname⟩ := foldlM_eq_error h
      have hleads : ∀ name' ∈ before ++ name :: after, g.LeadsTo (trail ++ [unit]) name' :=
        fun name' hname' => htrail.concat hmem ⟨_, hload, hname'⟩
      have hn' : bound < n + (trail ++ [unit]).length := by
        rw [List.length_append, List.length_singleton]
        omega
      -- the imports before the failing one have trees, which are walked where they are not finished
      obtain ⟨visits, hvisits, rfl⟩ := (finishes_visit g n (trail ++ [unit])).foldlM hmet hbefore
      have hbefore' := foldlM_visit_of_postOrder hbound hn'
        (fun name' hname' => hleads name' (by simp [hname'])) hmet' hvisits
      have hsub' : met' ++ visits ⊆ met ++ visits :=
        List.append_subset.mpr ⟨fun _ hu => List.mem_append_left _ (hsub hu),
          List.subset_append_right _ _⟩
      exact foldlM_of_error hbefore'
        (ih hn' (hleads name (by simp)) (hmet.append hvisits) (hmet'.append hvisits) hsub' hname)

/-- Where few enough units load, a walk fails at one of the given units, after those before it went
through, as it fails from this unit alone. -/
theorem foldlM_visit_eq_error_split {bound n : Nat} {names : List String} {e : Failure}
    (hbound : g.LoadsAtMost bound) (hn : bound < n)
    (h : names.foldlM (g.visit n []) [] = .error e) :
    ∃ before name after, names = before ++ name :: after ∧
      (∃ order, before.foldlM (g.visit n []) [] = .ok order) ∧
      [name].foldlM (g.visit n []) [] = .error e := by
  obtain ⟨before, name, after, mid, rfl, hbefore, hname⟩ := foldlM_eq_error h
  refine ⟨before, name, after, rfl, ⟨mid, hbefore⟩, ?_⟩
  obtain ⟨visits, hvisits, rfl⟩ := (finishes_visit g n []).foldlM (complete_nil g) hbefore
  have halone := visit_eq_error_of_subset hbound hn (.nil g name) ((complete_nil g).append hvisits)
    (complete_nil g) (List.nil_subset _) hname
  have hnone : ([] : List String).foldlM (g.visit n []) [] = .ok [] := rfl
  exact foldlM_of_error hnone halone

end PropExport.ImportGraph
