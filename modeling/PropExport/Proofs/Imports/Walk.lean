import Mathlib.Data.List.Nodup
import PropExport.Proofs.Imports.Graph
import PropExport.Proofs.Results

/-!
# Walking an import graph

Units are finished depth first, with a trail of the units under way that finds cycles and a list of
the finished ones that keeps a unit from being walked twice. A walk that succeeds finishes the units
of the unfolded trees in the order in which they are first met. A walk that fails has met a unit
that does not load, or a cycle, or has used up its bound on the length of the trail; where only
finitely many units load, a large enough bound is never used up.
-/

namespace PropExport

/-- Repeating elements that are there already adds nothing. -/
theorem eraseDups_append_of_subset {earlier later : List String} (h : later ⊆ earlier) :
    (earlier ++ later).eraseDups = earlier.eraseDups := by
  have hnone : later.removeAll earlier = [] := by
    simpa [List.removeAll, List.filter_eq_nil_iff] using fun _ hmem => h hmem
  rw [List.eraseDups_append, hnone, List.eraseDups_nil, List.append_nil]

/-- A new element stands at the end. -/
theorem eraseDups_append_singleton {earlier : List String} {unit : String} (h : unit ∉ earlier) :
    (earlier ++ [unit]).eraseDups = earlier.eraseDups ++ [unit] := by
  have hkept : [unit].removeAll earlier = [unit] := by
    simpa [List.removeAll] using h
  rw [List.eraseDups_append, hkept, List.eraseDups_cons, List.filter_nil, List.eraseDups_nil]

/-- A new unit at the end leaves a list without duplicates. -/
theorem nodup_concat {units : List String} {unit : String} (h : units.Nodup) (hnew : unit ∉ units) :
    (units ++ [unit]).Nodup := by
  simpa using List.Nodup.concat hnew h

/-- No element is kept twice. -/
theorem nodup_eraseDups (units : List String) : units.eraseDups.Nodup := by
  induction units using List.reverseRecOn with
  | nil => exact List.nodup_nil
  | append_singleton units unit ih =>
    by_cases h : unit ∈ units
    · rwa [eraseDups_append_of_subset (by simpa using h)]
    · rw [eraseDups_append_singleton h]
      exact nodup_concat ih (by simpa using h)

namespace ImportGraph

open Relation

variable {g : ImportGraph}

/-- Finishes a unit after what it imports, given the trail that leads to it and the units that are
finished. The first argument bounds the length of the trail. -/
def visit (g : ImportGraph) :
    Nat → List String → List String → String → Except Failure (List String)
  | 0, trail, _, unit => .error (.importCycle (trail ++ [unit]))
  | n + 1, trail, finished, unit =>
    if unit ∈ finished then .ok finished
    else if unit ∈ trail then .error (.importCycle (trail ++ [unit]))
    else
      match g unit with
      | .error e => .error e
      | .ok imports =>
        (imports.foldlM (g.visit n (trail ++ [unit])) finished).map (· ++ [unit])

section Cases

variable {n : Nat} {trail finished : List String} {unit : String}

/-- A unit that is finished is not visited again. -/
theorem visit_of_mem_finished (h : unit ∈ finished) :
    g.visit (n + 1) trail finished unit = .ok finished := by
  rw [visit, if_pos h]

/-- A unit on the trail closes a cycle. -/
theorem visit_of_mem_trail (h : unit ∉ finished) (htrail : unit ∈ trail) :
    g.visit (n + 1) trail finished unit = .error (.importCycle (trail ++ [unit])) := by
  rw [visit, if_neg h, if_pos htrail]

/-- A unit that does not load fails the visit. -/
theorem visit_of_error {e : Failure} (h : unit ∉ finished) (htrail : unit ∉ trail)
    (hload : g unit = .error e) : g.visit (n + 1) trail finished unit = .error e := by
  rw [visit, if_neg h, if_neg htrail, hload]

/-- Visiting a unit that loads is to finish its imports and then the unit. -/
theorem visit_of_ok {imports : List String} (h : unit ∉ finished) (htrail : unit ∉ trail)
    (hload : g unit = .ok imports) :
    g.visit (n + 1) trail finished unit =
      (imports.foldlM (g.visit n (trail ++ [unit])) finished).map (· ++ [unit]) := by
  rw [visit, if_neg h, if_neg htrail, hload]

end Cases

/-- With each of its units a list holds all below it. -/
def Complete (g : ImportGraph) (units : List String) : Prop :=
  ∀ unit ∈ units, ∃ tree, g.PostOrder [unit] tree ∧ tree ⊆ units

/-- The empty list is complete. -/
theorem complete_nil (g : ImportGraph) : g.Complete [] := by
  simp [Complete]

/-- A complete list stays complete when all that a walk visits is added. -/
theorem Complete.append {units names visits : List String} (h : g.Complete units)
    (hvisits : g.PostOrder names visits) : g.Complete (units ++ visits) := by
  intro unit hunit
  rcases List.mem_append.mp hunit with hmem | hmem
  · obtain ⟨tree, htree, hsub⟩ := h unit hmem
    exact ⟨tree, htree, fun _ hx => List.mem_append_left _ (hsub hx)⟩
  · obtain ⟨tree, htree, hsub⟩ := hvisits.subtree hmem
    exact ⟨tree, htree, fun _ hx => List.mem_append_right _ (hsub hx)⟩

/-- A way to finish one unit at a time: what is finished are the units met so far, and finishing a
unit meets the tree below it. -/
def Finishes (g : ImportGraph) (f : List String → String → Except Failure (List String)) : Prop :=
  ∀ met unit out, g.Complete met → f met.eraseDups unit = .ok out →
    ∃ tree, g.PostOrder [unit] tree ∧ out = (met ++ tree).eraseDups

/-- Finishing units one after the other meets the trees below them in order. -/
theorem Finishes.foldlM {f : List String → String → Except Failure (List String)}
    (hf : g.Finishes f) {names met out : List String} (hmet : g.Complete met)
    (h : names.foldlM f met.eraseDups = .ok out) :
    ∃ visits, g.PostOrder names visits ∧ out = (met ++ visits).eraseDups := by
  induction names generalizing met with
  | nil =>
    cases h
    exact ⟨[], .nil, by rw [List.append_nil]⟩
  | cons name names ih =>
    rw [List.foldlM_cons] at h
    obtain ⟨next, hname, hrest⟩ := exists_of_bind_eq_ok h
    obtain ⟨tree, htree, rfl⟩ := hf met name next hmet hname
    obtain ⟨visits, hvisits, rfl⟩ := ih (hmet.append htree) hrest
    exact ⟨tree ++ visits, htree.append hvisits, by rw [List.append_assoc]⟩

/-- A visit that succeeds finishes the units of the tree below the unit, each where it is first
met. -/
theorem finishes_visit (g : ImportGraph) (n : Nat) (trail : List String) :
    g.Finishes (g.visit n trail) := by
  induction n generalizing trail with
  | zero => intro met unit out _ h; cases h
  | succ n ih =>
    intro met unit out hmet h
    by_cases hfinished : unit ∈ met.eraseDups
    · -- the tree was walked before, and meets nothing new
      rw [visit_of_mem_finished hfinished] at h
      cases h
      obtain ⟨tree, htree, hsub⟩ := hmet unit (List.mem_eraseDups.mp hfinished)
      exact ⟨tree, htree, (eraseDups_append_of_subset hsub).symm⟩
    by_cases htrail : unit ∈ trail
    · rw [visit_of_mem_trail hfinished htrail] at h
      cases h
    cases hload : g unit with
    | error e => rw [visit_of_error hfinished htrail hload] at h; cases h
    | ok imports =>
      rw [visit_of_ok hfinished htrail hload] at h
      cases hfold : imports.foldlM (g.visit n (trail ++ [unit])) met.eraseDups with
      | error e => rw [hfold] at h; cases h
      | ok finished =>
        rw [hfold] at h
        cases h
        obtain ⟨below, hbelow, rfl⟩ := (ih (trail ++ [unit])).foldlM hmet hfold
        have htree := PostOrder.single hload hbelow
        -- a unit below itself would be a cycle, which has no post-order
        have hnew : unit ∉ met ++ below := by
          intro hmem
          rcases List.mem_append.mp hmem with hmem | hmem
          · exact hfinished (List.mem_eraseDups.mpr hmem)
          · obtain ⟨name, hname, hpath⟩ := hbelow.mem_iff_reaches.mp hmem
            exact htree.acyclic (by simp) (.head' ⟨imports, hload, hname⟩ hpath)
        refine ⟨below ++ [unit], htree, ?_⟩
        rw [← List.append_assoc, eraseDups_append_singleton hnew]

/-- A visit that fails has met a unit that does not load, or its trail grew along imports to a unit
that is on it already or to the bound. -/
theorem visit_eq_error {n : Nat} {trail finished : List String} {unit : String} {e : Failure}
    (htrail : trail.Nodup) (h : g.visit n trail finished unit = .error e) :
    (∃ other, ReflTransGen g.Imports unit other ∧ g other = .error e) ∨
    ∃ path last, e = .importCycle (trail ++ path ++ [last]) ∧
      List.IsChain g.Imports (path ++ [last]) ∧ (path ++ [last]).head? = some unit ∧
      (trail ++ path).Nodup ∧ (last ∈ trail ++ path ∨ n ≤ path.length) := by
  induction n generalizing trail finished unit with
  | zero =>
    cases h
    exact .inr ⟨[], unit, by simp, by simp, rfl, by simpa using htrail, .inr (Nat.zero_le _)⟩
  | succ n ih =>
    by_cases hfinished : unit ∈ finished
    · rw [visit_of_mem_finished hfinished] at h
      cases h
    by_cases hmem : unit ∈ trail
    · rw [visit_of_mem_trail hfinished hmem] at h
      cases h
      exact .inr ⟨[], unit, by simp, by simp, rfl, by simpa using htrail,
        .inl (by simpa using hmem)⟩
    cases hload : g unit with
    | error e' =>
      rw [visit_of_error hfinished hmem hload] at h
      cases h
      exact .inl ⟨unit, .refl, hload⟩
    | ok imports =>
      rw [visit_of_ok hfinished hmem hload] at h
      cases hfold : imports.foldlM (g.visit n (trail ++ [unit])) finished with
      | ok out => rw [hfold] at h; cases h
      | error e' =>
        rw [hfold] at h
        cases h
        obtain ⟨before, name, after, mid, rfl, _, hname⟩ := foldlM_eq_error hfold
        have himports : g.Imports unit name := ⟨_, hload, by simp⟩
        rcases ih (nodup_concat htrail hmem) hname with
          ⟨other, hpath, hother⟩ | ⟨path, last, rfl, hchain, hhead, hnodup, hend⟩
        · exact .inl ⟨other, .head himports hpath, hother⟩
        · refine .inr ⟨unit :: path, last, by simp, ?_, rfl, by simpa using hnodup, ?_⟩
          · rw [List.cons_append]
            refine List.isChain_cons.mpr ⟨?_, hchain⟩
            intro next hnext
            rw [hhead] at hnext
            cases hnext
            exact himports
          · rcases hend with hend | hend
            · exact .inl (by simpa using hend)
            · exact .inr (by simpa using hend)

/-- A visit looks at nothing but what the unit reaches. -/
theorem visit_congr {g' : ImportGraph} {n : Nat} {trail finished : List String} {unit : String}
    (h : ∀ other, ReflTransGen g.Imports unit other → g' other = g other) :
    g'.visit n trail finished unit = g.visit n trail finished unit := by
  induction n generalizing trail finished unit with
  | zero => rfl
  | succ n ih =>
    by_cases hfinished : unit ∈ finished
    · rw [visit_of_mem_finished hfinished, visit_of_mem_finished hfinished]
    by_cases hmem : unit ∈ trail
    · rw [visit_of_mem_trail hfinished hmem, visit_of_mem_trail hfinished hmem]
    have hunit := h unit .refl
    cases hload : g unit with
    | error e =>
      rw [visit_of_error hfinished hmem hload, visit_of_error hfinished hmem (hunit.trans hload)]
    | ok imports =>
      rw [visit_of_ok hfinished hmem hload, visit_of_ok hfinished hmem (hunit.trans hload)]
      have hbelow (name : String) (hname : name ∈ imports) (done : List String) :
          g'.visit n (trail ++ [unit]) done name = g.visit n (trail ++ [unit]) done name :=
        ih fun other hpath => h other (.head ⟨imports, hload, hname⟩ hpath)
      rw [foldlM_congr hbelow]

/-- No more than the given number of units load. -/
def LoadsAtMost (g : ImportGraph) (bound : Nat) : Prop :=
  ∀ units : List String, units.Nodup → (∀ unit ∈ units, g.Loads unit) → units.length ≤ bound

/-- Two bounds that the trail cannot use up give the same result. -/
theorem visit_eq_visit {bound n m : Nat} {trail finished : List String} {unit : String}
    (hbound : g.LoadsAtMost bound) (htrail : trail.Nodup) (hloads : ∀ u ∈ trail, g.Loads u)
    (hn : bound < n + trail.length) (hm : bound < m + trail.length) :
    g.visit n trail finished unit = g.visit m trail finished unit := by
  have hlength := hbound trail htrail hloads
  induction n generalizing m trail finished unit with
  | zero => omega
  | succ n ih =>
    obtain _ | m := m
    · omega
    by_cases hfinished : unit ∈ finished
    · rw [visit_of_mem_finished hfinished, visit_of_mem_finished hfinished]
    by_cases hmem : unit ∈ trail
    · rw [visit_of_mem_trail hfinished hmem, visit_of_mem_trail hfinished hmem]
    cases hload : g unit with
    | error e => rw [visit_of_error hfinished hmem hload, visit_of_error hfinished hmem hload]
    | ok imports =>
      rw [visit_of_ok hfinished hmem hload, visit_of_ok hfinished hmem hload]
      have htrail' := nodup_concat htrail hmem
      have hloads' : ∀ u ∈ trail ++ [unit], g.Loads u := by
        intro u hu
        rcases List.mem_append.mp hu with hu | hu
        · exact hloads u hu
        · rw [List.mem_singleton.mp hu]
          exact ⟨imports, hload⟩
      have hvisit : g.visit n (trail ++ [unit]) = g.visit m (trail ++ [unit]) := by
        funext finished' unit'
        apply ih htrail' hloads'
        · simp only [List.length_append, List.length_singleton]; omega
        · simp only [List.length_append, List.length_singleton]; omega
        · exact hbound _ htrail' hloads'
      rw [hvisit]

/-- Where each unit is kept where it is first met, what a unit imports stands before it. -/
theorem PostOrder.exists_split_eraseDups {names visits : List String} {unit other : String}
    (h : g.PostOrder names visits) (hunit : unit ∈ visits) (himports : g.Imports unit other) :
    ∃ before after, visits.eraseDups = before ++ unit :: after ∧ other ∈ before := by
  obtain ⟨before, after, rfl, hnew⟩ := List.eq_append_cons_of_mem hunit
  have hkept : (unit :: after).removeAll before = unit :: after.removeAll before := by
    simp [List.removeAll, hnew]
  have hbefore := h.imports_before rfl himports
  rw [List.eraseDups_append, hkept, List.eraseDups_cons]
  exact ⟨before.eraseDups, _, rfl, List.mem_eraseDups.mpr hbefore⟩

/-- Where each unit is kept where it is first met, all that a unit imports, directly or through
others, stands before it. -/
theorem PostOrder.mem_before_of_transGen {names visits before after : List String}
    {unit other : String} (h : g.PostOrder names visits)
    (hsplit : visits.eraseDups = before ++ unit :: after) (hpath : TransGen g.Imports unit other) :
    other ∈ before := by
  -- a unit is kept once, so there is one way to split the order at it
  have hstep {before after : List String} {unit other : String}
      (hsplit : visits.eraseDups = before ++ unit :: after) (himports : g.Imports unit other) :
      other ∈ before := by
    have hunit : unit ∈ visits := List.mem_eraseDups.mp (by simp [hsplit])
    obtain ⟨before', after', hsplit', hother⟩ := h.exists_split_eraseDups hunit himports
    have hnodup := nodup_eraseDups visits
    rw [hsplit, List.nodup_append] at hnodup
    have hbefore : unit ∉ before := fun hmem => hnodup.2.2 unit hmem unit (by simp) rfl
    have hafter : unit ∉ after := (List.nodup_cons.mp hnodup.2.1).1
    rwa [((List.append_cons_inj_of_notMem hbefore hafter).mp (hsplit.symm.trans hsplit')).1]
  induction hpath with
  | single himports => exact hstep hsplit himports
  | @tail mid other _ himports ih =>
    obtain ⟨first, second, rfl⟩ := List.mem_iff_append.mp ih
    have hmid : visits.eraseDups = first ++ mid :: (second ++ unit :: after) := by
      simpa using hsplit
    exact List.mem_append_left _ (hstep hmid himports)

/-- A unit that loads does not fail to load. -/
theorem Loads.ne_error {unit : String} (h : g.Loads unit) (e : Failure) : g unit ≠ .error e := by
  obtain ⟨imports, hload⟩ := h
  rw [hload]
  exact fun hfail => nomatch hfail

/-- All units of a chain of imports are reached from the first one, and the first of two reaches the
second through imports. -/
theorem reaches_of_isChain {chain : List String} {first : String} (h : List.IsChain g.Imports chain)
    (hhead : chain.head? = some first) :
    (∀ unit ∈ chain, ReflTransGen g.Imports first unit) ∧ chain.Pairwise (TransGen g.Imports) := by
  have hpairs : chain.Pairwise (TransGen g.Imports) :=
    List.isChain_iff_pairwise.mp (h.imp fun _ _ himports => .single himports)
  refine ⟨?_, hpairs⟩
  cases chain with
  | nil => cases hhead
  | cons head rest =>
    obtain rfl : head = first := Option.some.inj hhead
    intro unit hunit
    rcases List.mem_cons.mp hunit with rfl | hunit
    · exact .refl
    · exact ((List.pairwise_cons.mp hpairs).1 unit hunit).to_reflTransGen

/-- A unit that leads to another through imports loads. -/
theorem loads_of_transGen {unit other : String} (h : TransGen g.Imports unit other) :
    g.Loads unit := by
  obtain ⟨_, ⟨imports, hload, _⟩, _⟩ := TransGen.head'_iff.mp h
  exact ⟨imports, hload⟩

/-- Where few enough units load, a walk from given units fails only because a unit they reach fails
to load, or because imports that lead away from one of them come back to a unit on their way. -/
theorem foldlM_visit_eq_error_cases {bound n : Nat} {names : List String} {e : Failure}
    (hbound : g.LoadsAtMost bound) (hn : bound < n)
    (h : names.foldlM (g.visit n []) [] = .error e) :
    (∃ unit, g.Reaches names unit ∧ g unit = .error e) ∨
    ∃ first path last, first ∈ names ∧ e = .importCycle (path ++ [last]) ∧
      (path ++ [last]).head? = some first ∧ List.IsChain g.Imports (path ++ [last]) ∧ path.Nodup ∧
      last ∈ path := by
  obtain ⟨before, name, after, mid, rfl, _, hname⟩ := foldlM_eq_error h
  have hmem : name ∈ before ++ name :: after := by simp
  rcases visit_eq_error List.nodup_nil hname with
    ⟨unit, hpath, hunit⟩ | ⟨path, last, rfl, hchain, hhead, hnodup, hend⟩
  · exact .inl ⟨unit, ⟨name, hmem, hpath⟩, hunit⟩
  · rw [List.nil_append] at hnodup hend
    refine .inr ⟨name, path, last, hmem, rfl, hhead, hchain, hnodup,
      hend.resolve_right fun hlong => ?_⟩
    -- the trail is as long as the bound, so too many units load
    have hpairs := (reaches_of_isChain hchain hhead).2
    have hloads : ∀ unit ∈ path, g.Loads unit := fun unit hunit =>
      loads_of_transGen ((List.pairwise_append.mp hpairs).2.2 unit hunit last (by simp))
    have := hbound path hnodup hloads
    omega

/-- Where few enough units load, a walk from given units fails only if one of the units they reach
fails to load in this way or imports itself through others. -/
theorem foldlM_visit_eq_error {bound n : Nat} {names : List String} {e : Failure}
    (hbound : g.LoadsAtMost bound) (hn : bound < n)
    (h : names.foldlM (g.visit n []) [] = .error e) :
    ∃ unit, g.Reaches names unit ∧ (g unit = .error e ∨ TransGen g.Imports unit unit) := by
  rcases foldlM_visit_eq_error_cases hbound hn h with
    ⟨unit, hreach, hunit⟩ | ⟨first, path, last, hfirst, _, hhead, hchain, _, hlast⟩
  · exact ⟨unit, hreach, .inl hunit⟩
  · obtain ⟨hreach, hpairs⟩ := reaches_of_isChain hchain hhead
    have hcycle := (List.pairwise_append.mp hpairs).2.2 last hlast last (by simp)
    exact ⟨last, ⟨first, hfirst, hreach last (by simp)⟩, .inr hcycle⟩

/-- A row of units has a post-order exactly if all they reach loads and none of it imports itself
through others. -/
theorem exists_postOrder_iff {bound : Nat} {names : List String} (hbound : g.LoadsAtMost bound) :
    (∃ visits, g.PostOrder names visits) ↔
      (∀ unit, g.Reaches names unit → g.Loads unit) ∧
      ∀ unit, g.Reaches names unit → ¬ TransGen g.Imports unit unit := by
  constructor
  · rintro ⟨visits, hvisits⟩
    exact ⟨fun unit h => hvisits.loads (hvisits.mem_iff_reaches.mpr h),
      fun unit h => hvisits.acyclic (hvisits.mem_iff_reaches.mpr h)⟩
  · rintro ⟨hloads, hacyclic⟩
    cases h : names.foldlM (g.visit (bound + 1) []) [] with
    | error e =>
      obtain ⟨unit, hreach, hunit | hunit⟩ := foldlM_visit_eq_error hbound (Nat.lt_succ_self _) h
      · exact absurd hunit ((hloads unit hreach).ne_error e)
      · exact absurd hunit (hacyclic unit hreach)
    | ok order =>
      obtain ⟨visits, hvisits, _⟩ := (finishes_visit g (bound + 1) []).foldlM (complete_nil g) h
      exact ⟨visits, hvisits⟩

/-- Where few enough units load, a walk succeeds exactly if there is a post-order, and finishes each
unit where it is first met. -/
theorem foldlM_visit_eq_ok_iff {bound n : Nat} {names order : List String}
    (hbound : g.LoadsAtMost bound) (hn : bound < n) :
    names.foldlM (g.visit n []) [] = .ok order ↔
      ∃ visits, g.PostOrder names visits ∧ order = visits.eraseDups := by
  have hok (out : List String) (h : names.foldlM (g.visit n []) [] = .ok out) :
      ∃ visits, g.PostOrder names visits ∧ out = visits.eraseDups := by
    simpa using (finishes_visit g n []).foldlM (complete_nil g) h
  constructor
  · exact hok order
  · rintro ⟨visits, hvisits, rfl⟩
    cases h : names.foldlM (g.visit n []) [] with
    | error e =>
      obtain ⟨unit, hreach, hunit | hunit⟩ := foldlM_visit_eq_error hbound hn h
      · exact absurd hunit ((hvisits.loads (hvisits.mem_iff_reaches.mpr hreach)).ne_error e)
      · exact absurd hunit (hvisits.acyclic (hvisits.mem_iff_reaches.mpr hreach))
    | ok out =>
      obtain ⟨visits', hvisits', rfl⟩ := hok out h
      rw [hvisits.unique hvisits']

end ImportGraph

end PropExport
