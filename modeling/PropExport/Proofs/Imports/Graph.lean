import Mathlib.Data.List.Chain
import Mathlib.Logic.Relation
import PropExport.Failure

/-!
# Import graphs

The units that a unit imports, as a graph in which looking at a unit may fail. The order in which
units are finished is compared with the post-order of the tree that import lists unfold to. That
tree has a post-order exactly if nothing below its roots fails to load and no unit imports itself
through others.
-/

namespace PropExport

/-- What each unit imports directly, or why that cannot be told. -/
abbrev ImportGraph := String → Except Failure (List String)

namespace ImportGraph

open Relation

variable {g : ImportGraph}

/-- A unit imports another one directly. -/
def Imports (g : ImportGraph) (unit other : String) : Prop :=
  ∃ imports, g unit = .ok imports ∧ other ∈ imports

/-- A unit is one of the given ones or imported by one of them, directly or through others. -/
def Reaches (g : ImportGraph) (names : List String) (unit : String) : Prop :=
  ∃ name ∈ names, ReflTransGen g.Imports name unit

/-- The import list of a unit is known. -/
def Loads (g : ImportGraph) (unit : String) : Prop :=
  ∃ imports, g unit = .ok imports

/-- The units met when the trees of imports below the given units are walked from left to right,
each unit after all below it. A unit is listed as often as it is met. -/
inductive PostOrder (g : ImportGraph) : List String → List String → Prop
  | nil : PostOrder g [] []
  | cons {unit : String} {imports below names rest : List String} :
      g unit = .ok imports → PostOrder g imports below → PostOrder g names rest →
      PostOrder g (unit :: names) (below ++ unit :: rest)

namespace PostOrder

variable {names visits : List String}

/-- Walking two rows of trees one after the other. -/
theorem append {others more : List String} (h : PostOrder g names visits)
    (hmore : PostOrder g others more) : PostOrder g (names ++ others) (visits ++ more) := by
  induction h with
  | nil => exact hmore
  | cons hload hbelow _ _ ih =>
    simpa only [List.cons_append, List.append_assoc] using PostOrder.cons hload hbelow ih

/-- A single tree. -/
theorem single {unit : String} {imports below : List String} (hload : g unit = .ok imports)
    (hbelow : PostOrder g imports below) : PostOrder g [unit] (below ++ [unit]) :=
  .cons hload hbelow .nil

/-- There is only one way to walk a row of trees. -/
theorem unique (h : PostOrder g names visits) {visits' : List String}
    (h' : PostOrder g names visits') : visits = visits' := by
  induction h generalizing visits' with
  | nil => cases h'; rfl
  | cons hload _ _ ihbelow ihrest =>
    cases h' with
    | cons hload' hbelow' hrest' =>
      have himports := Except.ok.inj (hload.symm.trans hload')
      subst himports
      rw [ihbelow hbelow', ihrest hrest']

/-- The roots are met. -/
theorem subset (h : PostOrder g names visits) : names ⊆ visits := by
  induction h with
  | nil => exact fun _ h => h
  | cons _ _ _ _ ih =>
    intro name hname
    rcases List.mem_cons.mp hname with rfl | hname
    · simp
    · simp [ih hname]

/-- Below every unit that is met stands a tree that is walked on the way. -/
theorem subtree (h : PostOrder g names visits) {unit : String} (hunit : unit ∈ visits) :
    ∃ tree, PostOrder g [unit] tree ∧ tree ⊆ visits := by
  induction h with
  | nil => simp at hunit
  | cons hload hbelow _ ihbelow ihrest =>
    rcases List.mem_append.mp hunit with hmem | hmem
    · obtain ⟨tree, htree, hsub⟩ := ihbelow hmem
      exact ⟨tree, htree, fun _ h => List.mem_append_left _ (hsub h)⟩
    · rcases List.mem_cons.mp hmem with rfl | hmem
      · exact ⟨_, single hload hbelow, by simp⟩
      · obtain ⟨tree, htree, hsub⟩ := ihrest hmem
        exact ⟨tree, htree, fun _ h => List.mem_append_right _ (List.mem_cons_of_mem _ (hsub h))⟩

/-- What stands in front of an occurrence of a unit holds all that the unit imports. -/
theorem imports_before (h : PostOrder g names visits) {before after : List String}
    {unit other : String} (hsplit : visits = before ++ unit :: after)
    (himports : g.Imports unit other) : other ∈ before := by
  induction h generalizing before after with
  | nil => simp at hsplit
  | @cons root imports below _ rest hload hbelow _ ihbelow ihrest =>
    have hroot : unit = root → other ∈ below := by
      rintro rfl
      obtain ⟨imports', hload', hother⟩ := himports
      rw [Except.ok.inj (hload'.symm.trans hload)] at hother
      exact hbelow.subset hother
    rcases List.append_eq_append_iff.mp hsplit with ⟨part, rfl, hpart⟩ | ⟨part, rfl, hpart⟩
    · -- the occurrence is the root itself or stands to the right of it
      cases part with
      | nil =>
        obtain ⟨rfl, _⟩ : root = unit ∧ rest = after := by simpa using hpart
        simpa using hroot rfl
      | cons first part =>
        obtain ⟨rfl, hrest⟩ : root = first ∧ rest = part ++ unit :: after := by simpa using hpart
        simp [ihrest hrest]
    · -- the occurrence stands below the root or is the root itself
      cases part with
      | nil =>
        obtain ⟨rfl, _⟩ : unit = root ∧ after = rest := by simpa using hpart
        simpa using hroot rfl
      | cons first part =>
        obtain ⟨rfl, _⟩ : unit = first ∧ after = part ++ root :: rest := by simpa using hpart
        exact ihbelow rfl

/-- The tree below an imported unit is smaller. -/
theorem length_lt_of_imports {unit other : String} {tree : List String}
    (h : PostOrder g [unit] tree) (himports : g.Imports unit other) :
    ∃ subtree, PostOrder g [other] subtree ∧ subtree.length < tree.length := by
  cases h with
  | cons hload hbelow hrest =>
    cases hrest
    obtain ⟨imports, hload', hother⟩ := himports
    have heq := Except.ok.inj (hload.symm.trans hload')
    subst heq
    -- the imports are split around the imported unit, whose tree is one part of theirs
    clear hload hload'
    induction hbelow with
    | nil => simp at hother
    | @cons root _ below _ rest hroot hinner _ _ ih =>
      rcases List.mem_cons.mp hother with rfl | hother
      · exact ⟨_, single hroot hinner, by simp⟩
      · obtain ⟨subtree, hsub, hlen⟩ := ih hother
        refine ⟨subtree, hsub, ?_⟩
        simp only [List.length_append, List.length_cons, List.length_nil] at hlen ⊢
        omega

/-- The tree below a unit that is imported through others is smaller. -/
theorem length_lt_of_transGen {unit other : String} {tree : List String}
    (h : PostOrder g [unit] tree) (hpath : TransGen g.Imports unit other) :
    ∃ subtree, PostOrder g [other] subtree ∧ subtree.length < tree.length := by
  induction hpath with
  | single himports => exact h.length_lt_of_imports himports
  | tail _ himports ih =>
    obtain ⟨mid, hmid, hlen⟩ := ih
    obtain ⟨subtree, hsub, hlen'⟩ := hmid.length_lt_of_imports himports
    exact ⟨subtree, hsub, by omega⟩

/-- No unit that is met imports itself, not even through others. -/
theorem acyclic (h : PostOrder g names visits) {unit : String} (hunit : unit ∈ visits) :
    ¬ TransGen g.Imports unit unit := by
  intro hcycle
  obtain ⟨tree, htree, _⟩ := h.subtree hunit
  obtain ⟨tree', htree', hlen⟩ := htree.length_lt_of_transGen hcycle
  rw [htree.unique htree'] at hlen
  omega

/-- Every unit that is met loads. -/
theorem loads (h : PostOrder g names visits) {unit : String} (hunit : unit ∈ visits) :
    g.Loads unit := by
  obtain ⟨tree, htree, _⟩ := h.subtree hunit
  cases htree with
  | cons hload _ _ => exact ⟨_, hload⟩

/-- The units that are met are the reachable ones. -/
theorem mem_iff_reaches (h : PostOrder g names visits) {unit : String} :
    unit ∈ visits ↔ g.Reaches names unit := by
  constructor
  · intro hunit
    induction h with
    | nil => simp at hunit
    | @cons root _ _ _ _ hload _ _ ihbelow ihrest =>
      rcases List.mem_append.mp hunit with hmem | hmem
      · obtain ⟨name, hname, hpath⟩ := ihbelow hmem
        exact ⟨root, by simp, .head ⟨_, hload, hname⟩ hpath⟩
      · rcases List.mem_cons.mp hmem with rfl | hmem
        · exact ⟨unit, by simp, .refl⟩
        · obtain ⟨name, hname, hpath⟩ := ihrest hmem
          exact ⟨name, by simp [hname], hpath⟩
  · rintro ⟨name, hname, hpath⟩
    induction hpath with
    | refl => exact h.subset hname
    | tail _ himports ih =>
      obtain ⟨before, after, hsplit⟩ := List.mem_iff_append.mp ih
      rw [hsplit]
      exact List.mem_append_left _ (h.imports_before hsplit himports)

/-- A walk looks at nothing but the units it meets. -/
theorem congr {g' : ImportGraph} (h : PostOrder g names visits)
    (hagree : ∀ unit ∈ visits, g' unit = g unit) : PostOrder g' names visits := by
  induction h with
  | nil => exact .nil
  | cons hload _ _ ihbelow ihrest =>
    refine .cons ((hagree _ (by simp)).trans hload) (ihbelow ?_) (ihrest ?_)
    · exact fun unit hunit => hagree unit (List.mem_append_left _ hunit)
    · exact fun unit hunit =>
        hagree unit (List.mem_append_right _ (List.mem_cons_of_mem _ hunit))

end PostOrder

/-- No unit imports itself, not even through others. -/
def Acyclic (g : ImportGraph) : Prop :=
  ∀ unit, ¬ TransGen g.Imports unit unit

section Acyclic

variable {g' : ImportGraph}

/-- Fewer imports make no cycle. -/
theorem Acyclic.mono (h : g.Acyclic)
    (hsub : ∀ unit other, g'.Imports unit other → g.Imports unit other) : g'.Acyclic :=
  fun unit hcycle => h unit (TransGen.mono hsub _ _ hcycle)

variable {unit : String} (hother : ∀ v w, v ≠ unit → g'.Imports v w → g.Imports v w)

include hother

/-- Where only one unit has new imports, a chain of imports is an old one or leads through that
unit. -/
theorem transGen_of_update {v w : String} (h : TransGen g'.Imports v w) :
    TransGen g.Imports v w ∨ ReflTransGen g'.Imports v unit ∧ TransGen g'.Imports unit w := by
  induction h with
  | single hedge =>
    by_cases hv : v = unit
    · subst hv
      exact .inr ⟨.refl, .single hedge⟩
    · exact .inl (.single (hother _ _ hv hedge))
  | @tail mid _ hpath hedge ih =>
    by_cases hmid : mid = unit
    · subst hmid
      exact .inr ⟨hpath.to_reflTransGen, .single hedge⟩
    · rcases ih with hold | ⟨hbefore, hafter⟩
      · exact .inl (.tail hold (hother _ _ hmid hedge))
      · exact .inr ⟨hbefore, .tail hafter hedge⟩

/-- A unit can be given new imports without making a cycle if they do not reach it. -/
theorem Acyclic.update (h : g.Acyclic) {imports : List String} (hunit : g' unit = .ok imports)
    (hnew : ¬ g.Reaches imports unit) : g'.Acyclic := by
  -- what the new imports reach does not go through the unit, so they reached it before
  have hbelow {name other : String} (hname : name ∈ imports)
      (hpath : ReflTransGen g'.Imports name other) : ReflTransGen g.Imports name other := by
    induction hpath with
    | refl => exact .refl
    | @tail mid _ _ hedge ih =>
      have hmid : mid ≠ unit := by
        rintro rfl
        exact hnew ⟨name, hname, ih⟩
      exact .tail ih (hother _ _ hmid hedge)
  have hself : ¬ TransGen g'.Imports unit unit := by
    intro hcycle
    obtain ⟨name, ⟨imports', hload, hname⟩, hpath⟩ := TransGen.head'_iff.mp hcycle
    rw [Except.ok.inj (hload.symm.trans hunit)] at hname
    exact hnew ⟨name, hname, hbelow hname hpath⟩
  intro v hcycle
  rcases transGen_of_update hother hcycle with hold | ⟨hbefore, hafter⟩
  · exact h v hold
  · exact hself (hafter.trans_left hbefore)

end Acyclic

end ImportGraph

end PropExport
