import Mathlib.Data.List.Perm.Subperm
import PropExport.Proofs.Archive.Lookup
import PropExport.Proofs.Files.Tree

/-!
# Finishing imports

Finishing units in an archive is a walk of the import graph that the archive gives at the start:
what is remembered on the way changes nothing about it. Every log comes from memory or from a file
that names its unit, so no more units load than there are remembered logs and files, and the bound
on the trail is never used up.
-/

namespace PropExport.Archive

open ImportGraph Relation

/-- The logs of all given units are remembered. -/
def Remembers (a : Archive) (units : List String) : Prop :=
  ∀ unit ∈ units, ∃ log, a.known.lookup unit = some log

/-- Looking things up forgets nothing. -/
theorem Recalls.remembers {a b : Archive} {units : List String} (h : a.Recalls b)
    (hunits : a.Remembers units) : b.Remembers units := by
  intro unit hunit
  obtain ⟨log, hlog⟩ := hunits unit hunit
  exact ⟨log, h.known_mono hlog⟩

/-- A way to finish one unit at a time in an archive does what a way to finish it in the import
graph does, and what is finished is remembered. -/
def Walks (g : ImportGraph) (f : List String → String → ArchiveM (List String))
    (walk : List String → String → Except Failure (List String)) : Prop :=
  ∀ a finished unit, a.graph = g → ∃ b, f finished unit a = (walk finished unit, b) ∧ a.Recalls b ∧
    ∀ out, a.Remembers finished → walk finished unit = .ok out → b.Remembers out

/-- Finishing units one after the other. -/
theorem Walks.foldlM {g : ImportGraph} {f : List String → String → ArchiveM (List String)}
    {walk : List String → String → Except Failure (List String)} (h : Walks g f walk)
    (names finished : List String) {a : Archive} (ha : a.graph = g) :
    ∃ b, names.foldlM f finished a = (names.foldlM walk finished, b) ∧ a.Recalls b ∧
      ∀ out, a.Remembers finished → names.foldlM walk finished = .ok out → b.Remembers out := by
  induction names generalizing finished a with
  | nil =>
    refine ⟨a, rfl, .refl a, ?_⟩
    intro out hfinished hout
    rwa [← Except.ok.inj hout]
  | cons name names ih =>
    obtain ⟨b, hname, hrecalls, hremembers⟩ := h a finished name ha
    rw [List.foldlM_cons, List.foldlM_cons]
    cases hwalk : walk finished name with
    | error e =>
      rw [hwalk] at hname
      exact ⟨b, bind_of_error hname, hrecalls, by intro out _ hout; cases hout⟩
    | ok next =>
      rw [hwalk] at hname
      obtain ⟨c, hrest, hrecalls', hremembers'⟩ := ih next (hrecalls.graph_eq.trans ha)
      refine ⟨c, (bind_of_ok hname).trans hrest, hrecalls.trans hrecalls', ?_⟩
      intro out hfinished hout
      exact hremembers' out (hremembers next hfinished hwalk) hout

/-- Visiting a unit in an archive is visiting it in the import graph. -/
theorem walks_visit (g : ImportGraph) (n : Nat) (trail : List String) :
    Walks g (Archive.visit n trail) (g.visit n trail) := by
  induction n generalizing trail with
  | zero => exact fun a finished unit _ => ⟨a, rfl, .refl a, by intro out _ hout; cases hout⟩
  | succ n ih =>
    intro a finished unit ha
    rw [Archive.visit]
    by_cases hfinished : unit ∈ finished
    · rw [if_pos (by simpa using hfinished), visit_of_mem_finished hfinished]
      refine ⟨a, rfl, .refl a, ?_⟩
      intro out hall hout
      rwa [← Except.ok.inj hout]
    rw [if_neg (by simpa using hfinished)]
    by_cases htrail : unit ∈ trail
    · rw [if_pos (by simpa using htrail), visit_of_mem_trail hfinished htrail]
      exact ⟨a, rfl, .refl a, by intro out _ hout; cases hout⟩
    rw [if_neg (by simpa using htrail)]
    obtain ⟨b, hload, hrecalls, hknown⟩ := load_apply unit a
    cases hstored : a.stored unit with
    | error e =>
      have hgraph : g unit = .error e := by rw [← ha, graph, hstored]; rfl
      rw [hstored] at hload
      rw [visit_of_error hfinished htrail hgraph]
      exact ⟨b, bind_of_error hload, hrecalls, by intro out _ hout; cases hout⟩
    | ok log =>
      have hgraph : g unit = .ok log.imports := by rw [← ha, graph, hstored]; rfl
      rw [hstored] at hload
      rw [visit_of_ok hfinished htrail hgraph]
      obtain ⟨c, hfold, hrecalls', hremembers⟩ :=
        (ih (trail ++ [unit])).foldlM log.imports finished (hrecalls.graph_eq.trans ha)
      cases hwalk : log.imports.foldlM (g.visit n (trail ++ [unit])) finished with
      | error e =>
        rw [hwalk] at hfold
        refine ⟨c, ?_, hrecalls.trans hrecalls', by intro out _ hout; cases hout⟩
        exact (bind_of_ok hload).trans (bind_of_error hfold)
      | ok done =>
        rw [hwalk] at hfold
        refine ⟨c, (bind_of_ok hload).trans (bind_of_ok hfold), hrecalls.trans hrecalls', ?_⟩
        intro out hall hout
        obtain rfl := Except.ok.inj hout
        intro other hother
        rcases List.mem_append.mp hother with hother | hother
        · exact hremembers done (hrecalls.remembers hall) hwalk other hother
        · rw [List.mem_singleton.mp hother]
          exact ⟨log, hrecalls'.known_mono (hknown log hstored)⟩

/-- The log in the file of a unit tells the unit, so different units have files at different
locations. -/
theorem eq_of_fileLog_of_resolve_eq {a : Archive} {unit other : String} {log log' : UnitLog}
    (h : a.fileLog unit = .ok log) (h' : a.fileLog other = .ok log')
    (hloc : a.files.resolve (a.entryFile unit) = a.files.resolve (a.entryFile other)) :
    unit = other := by
  obtain ⟨_, rfl, content, hread, hparse⟩ := fileLog_eq_ok_iff.mp h
  obtain ⟨_, rfl, content', hread', hparse'⟩ := fileLog_eq_ok_iff.mp h'
  obtain ⟨loc, hresolve, hnode⟩ := FileTree.read_eq_ok_iff.mp hread
  obtain ⟨loc', hresolve', hnode'⟩ := FileTree.read_eq_ok_iff.mp hread'
  rw [hresolve, hresolve'] at hloc
  cases hloc
  rw [hnode] at hnode'
  cases hnode'
  rw [hparse] at hparse'
  cases hparse'
  rfl

/-- A unit is loaded in the import graph exactly if the archive gives a log for it. -/
theorem loads_graph_iff {a : Archive} {unit : String} :
    a.graph.Loads unit ↔ ∃ log, a.stored unit = .ok log := by
  unfold Loads graph
  cases a.stored unit with
  | error e => simp [Except.map]
  | ok log => simp [Except.map]

/-- Imports are read off the log that the archive gives for a unit. -/
theorem exists_stored_of_imports {a : Archive} {unit other : String}
    (h : a.graph.Imports unit other) : ∃ log, a.stored unit = .ok log ∧ other ∈ log.imports := by
  obtain ⟨imports, hload, hother⟩ := h
  obtain ⟨log, hlog⟩ := loads_graph_iff.mp ⟨imports, hload⟩
  rw [graph, hlog] at hload
  obtain rfl : log.imports = imports := Except.ok.inj hload
  exact ⟨log, hlog, hother⟩

/-- A unit loads from memory or from its file. -/
theorem stored_eq_ok {a : Archive} {unit : String} {log : UnitLog} (h : a.stored unit = .ok log) :
    a.known.lookup unit = some log ∨ a.fileLog unit = .ok log := by
  rw [stored_eq] at h
  cases hknown : a.known.lookup unit with
  | none => rw [hknown] at h; exact .inr h
  | some found =>
    rw [hknown] at h
    rw [Except.ok.inj h]
    exact .inl rfl

/-- No more units load than there are remembered logs and files. -/
theorem graph_loadsAtMost (a : Archive) :
    a.graph.LoadsAtMost (a.known.length + a.files.nodes.length) := by
  intro units hnodup hloads
  let inMemory := fun unit => (a.known.lookup unit).isSome
  -- remembered units are among the keys of what is remembered
  have hknown : (units.filter inMemory).length ≤ a.known.length := by
    have hsub : units.filter inMemory ⊆ a.known.map Prod.fst := by
      intro unit hunit
      obtain ⟨log, hlog⟩ := Option.isSome_iff_exists.mp (List.mem_filter.mp hunit).2
      obtain ⟨_, _, hsplit, _⟩ := List.lookup_eq_some_iff.mp hlog
      simp [hsplit]
    simpa using ((hnodup.filter _).subperm hsub).length_le
  -- the others have files, at different locations
  have hfiles : (units.filter fun unit => !inMemory unit).length ≤ a.files.nodes.length := by
    have hfile : ∀ unit ∈ units.filter (fun unit => !inMemory unit),
        ∃ log, a.fileLog unit = .ok log := by
      intro unit hunit
      obtain ⟨hunit, hmem⟩ := List.mem_filter.mp hunit
      obtain ⟨log, hlog⟩ := loads_graph_iff.mp (hloads unit hunit)
      rcases stored_eq_ok hlog with hlog | hlog
      · simp [inMemory, hlog] at hmem
      · exact ⟨log, hlog⟩
    have hinj : ((units.filter fun unit => !inMemory unit).map fun unit =>
        a.files.resolve (a.entryFile unit)).Nodup := by
      refine List.Nodup.map_on ?_ (hnodup.filter _)
      intro unit hunit other hother hloc
      obtain ⟨log, hlog⟩ := hfile unit hunit
      obtain ⟨log', hlog'⟩ := hfile other hother
      exact eq_of_fileLog_of_resolve_eq hlog hlog' hloc
    have hsub : ((units.filter fun unit => !inMemory unit).map fun unit =>
        a.files.resolve (a.entryFile unit)) ⊆ a.files.nodes.map fun node => .ok node.1 := by
      intro resolved hresolved
      obtain ⟨unit, hunit, rfl⟩ := List.mem_map.mp hresolved
      obtain ⟨log, hlog⟩ := hfile unit hunit
      obtain ⟨_, _, content, hread, _⟩ := fileLog_eq_ok_iff.mp hlog
      obtain ⟨loc, hloc, hnode⟩ := FileTree.read_eq_ok_iff.mp hread
      exact List.mem_map.mpr ⟨_, FileTree.mem_nodes_of_node? hnode, hloc.symm⟩
    simpa using (hinj.subperm hsub).length_le
  have hsplit := List.length_eq_length_filter_add inMemory (l := units)
  omega

/-- The closure of some units is a walk of the import graph, and all that it finishes is
remembered. -/
theorem closure_apply (names : List String) (a : Archive) :
    ∃ b, closure names a =
        (names.foldlM (a.graph.visit (a.known.length + a.files.nodes.length + 1) []) [], b) ∧
      a.Recalls b ∧ ∀ order, closure names a = (.ok order, b) → b.Remembers order := by
  obtain ⟨b, hfold, hrecalls, hremembers⟩ :=
    (walks_visit a.graph (a.known.length + a.files.nodes.length + 1) []).foldlM names [] rfl
  have hclosure := (get_bind (fun a => names.foldlM
    (Archive.visit (a.known.length + a.files.nodes.length + 1) []) []) a).trans hfold
  refine ⟨b, hclosure, hrecalls, ?_⟩
  intro order horder
  exact hremembers order (by simp [Remembers]) (congrArg Prod.fst (hclosure.symm.trans horder))

/-- Finishing imports looks at nothing but what the given units reach. -/
theorem closure_congr {names : List String} {a b : Archive}
    (h : ∀ unit, a.graph.Reaches names unit → b.graph unit = a.graph unit) :
    (closure names b).1 = (closure names a).1 := by
  obtain ⟨_, hwalk, _⟩ := closure_apply names a
  obtain ⟨_, hwalk', _⟩ := closure_apply names b
  -- a bound on the trail that suffices for both
  let bound :=
    max (a.known.length + a.files.nodes.length) (b.known.length + b.files.nodes.length) + 1
  have hvisit : a.graph.visit (a.known.length + a.files.nodes.length + 1) [] =
      a.graph.visit bound [] := by
    funext finished unit
    apply visit_eq_visit a.graph_loadsAtMost List.nodup_nil (by simp)
    · rw [List.length_nil]; omega
    · rw [List.length_nil]; omega
  have hvisit' : b.graph.visit (b.known.length + b.files.nodes.length + 1) [] =
      b.graph.visit bound [] := by
    funext finished unit
    apply visit_eq_visit b.graph_loadsAtMost List.nodup_nil (by simp)
    · rw [List.length_nil]; omega
    · rw [List.length_nil]; omega
  rw [hwalk, hwalk', hvisit, hvisit']
  refine foldlM_congr (fun name hname finished => visit_congr fun unit hpath => ?_) []
  exact h unit ⟨name, hname, hpath⟩

/-- The closure of some units is the post-order of the trees of imports below them, with each unit
where it is first met. -/
theorem closure_eq_ok_iff {names order : List String} {a : Archive} :
    (closure names a).1 = .ok order ↔
      ∃ visits, a.graph.PostOrder names visits ∧ order = visits.eraseDups := by
  obtain ⟨b, hclosure, _⟩ := closure_apply names a
  rw [hclosure]
  exact foldlM_visit_eq_ok_iff a.graph_loadsAtMost (Nat.lt_succ_self _)

/-- The logs of units that are not remembered are left out. -/
theorem logs_apply (units : List String) (a : Archive) :
    logs units a = (.ok (units.filterMap fun unit => a.known.lookup unit), a) :=
  get_bind _ a

/-- All remembered logs are given, one for each unit. -/
theorem logs_of_remembers {a : Archive} {units : List String} (h : a.Remembers units) :
    ∃ found, logs units a = (.ok found, a) ∧
      List.Forall₂ (fun unit log => a.known.lookup unit = some log) units found := by
  refine ⟨units.filterMap fun unit => a.known.lookup unit, logs_apply units a, ?_⟩
  induction units with
  | nil => exact .nil
  | cons unit units ih =>
    obtain ⟨log, hlog⟩ := h unit (by simp)
    have hunits : a.Remembers units := fun other hother => h other (by simp [hother])
    rw [List.filterMap_cons, hlog]
    exact .cons hlog (ih hunits)

/-- The logs that are looked up after imports were finished are those that the archive gave at the
start. -/
theorem filterMap_known_of_closure {names units : List String} {a b : Archive}
    (h : closure names a = (.ok units, b)) :
    (units.filterMap fun unit => b.known.lookup unit) =
      units.filterMap fun unit => (a.stored unit).toOption := by
  obtain ⟨_, hwalk, hrecalls, hremembers⟩ := closure_apply names a
  obtain rfl := congrArg Prod.snd (h.symm.trans hwalk)
  refine List.filterMap_congr fun unit hunit => ?_
  obtain ⟨log, hlog⟩ := hremembers units h unit hunit
  have hstored : a.stored unit = .ok log := hrecalls.stored_eq ▸ stored_of_known hlog
  rw [hlog, hstored]
  rfl

/-- Finishing imports sorts the import graph. It always comes to an end, as no bound on the trail
that exceeds the number of logs and files matters. It succeeds exactly if all that the given units
reach loads and no unit among it imports itself through others. Then it gives what is reached, each
unit once and after what it imports, in the order of a walk from left to right; all of it is
remembered, and looking up the logs drops none. -/
theorem closure_sorts_imports (a : Archive) (names : List String) :
    (∀ n, a.known.length + a.files.nodes.length < n →
      (names.foldlM (Archive.visit n []) [] a).1 = (closure names a).1) ∧
    ((∃ order, (closure names a).1 = .ok order) ↔
      (∀ unit, a.graph.Reaches names unit → ∃ log, a.stored unit = .ok log) ∧
      ∀ unit, a.graph.Reaches names unit → ¬ TransGen a.graph.Imports unit unit) ∧
    ∀ order b, closure names a = (.ok order, b) →
      order.Nodup ∧ (∀ unit, unit ∈ order ↔ a.graph.Reaches names unit) ∧
      (∀ unit other, unit ∈ order → a.graph.Imports unit other →
        ∃ before after, order = before ++ unit :: after ∧ other ∈ before) ∧
      (∃ visits, a.graph.PostOrder names visits ∧ order = visits.eraseDups) ∧
      ∃ found, logs order b = (.ok found, b) ∧
        List.Forall₂ (fun unit log => b.known.lookup unit = some log ∧ a.stored unit = .ok log)
          order found := by
  have hbound := a.graph_loadsAtMost
  refine ⟨?_, ?_, ?_⟩
  · intro n hn
    obtain ⟨b, hfold, _⟩ := (walks_visit a.graph n []).foldlM names [] (a := a) rfl
    obtain ⟨c, hclosure, _⟩ := closure_apply names a
    have hvisit : a.graph.visit n [] =
        a.graph.visit (a.known.length + a.files.nodes.length + 1) [] := by
      funext finished unit
      exact visit_eq_visit hbound List.nodup_nil (by simp) hn (Nat.lt_succ_self _)
    rw [hfold, hclosure, hvisit]
  · have hsome : (∃ order, (closure names a).1 = .ok order) ↔
        ∃ visits, a.graph.PostOrder names visits := by
      simp only [closure_eq_ok_iff]
      exact ⟨fun ⟨_, visits, h, _⟩ => ⟨visits, h⟩, fun ⟨visits, h⟩ => ⟨_, visits, h, rfl⟩⟩
    rw [hsome, exists_postOrder_iff hbound]
    simp only [loads_graph_iff]
  · intro order b hclosure
    obtain ⟨visits, hvisits, rfl⟩ := closure_eq_ok_iff.mp (congrArg Prod.fst hclosure)
    obtain ⟨c, hwalk, hrecalls, hremembers⟩ := closure_apply names a
    obtain rfl : b = c := congrArg Prod.snd (hclosure.symm.trans hwalk)
    obtain ⟨found, hlogs, hfound⟩ := logs_of_remembers (hremembers _ hclosure)
    refine ⟨nodup_eraseDups visits, ?_, ?_, ⟨visits, hvisits, rfl⟩, found, hlogs, ?_⟩
    · intro unit
      rw [List.mem_eraseDups, hvisits.mem_iff_reaches]
    · intro unit other hunit himports
      exact hvisits.exists_split_eraseDups (List.mem_eraseDups.mp hunit) himports
    · refine hfound.imp fun unit log hlog => ⟨hlog, ?_⟩
      rw [← hrecalls.stored_eq]
      exact stored_of_known hlog

/-- Four remembered units, of which two import the same one and are imported by the same one. -/
def diamond : Archive where
  buildDir := "build"
  suffix := "log"
  files := {}
  known := [("top", ⟨"top", ["left", "right"], []⟩), ("left", ⟨"left", ["base"], []⟩),
    ("right", ⟨"right", ["base", "base"], []⟩), ("base", ⟨"base", [], []⟩)]

/-- Each unit of the diamond is finished once and after what it imports, also with a larger
bound. -/
theorem closure_diamond :
    diamond.known.length + diamond.files.nodes.length < 5 ∧
    (["top"].foldlM (Archive.visit 5 []) [] diamond).1 = (closure ["top"] diamond).1 ∧
    closure ["top"] diamond = (.ok ["base", "left", "right", "top"], diamond) ∧
    ∃ found, logs ["base", "left", "right", "top"] diamond = (.ok found, diamond) ∧
      List.Forall₂
        (fun unit log => diamond.known.lookup unit = some log ∧ diamond.stored unit = .ok log)
        ["base", "left", "right", "top"] found :=
  have h := closure_sorts_imports diamond ["top"]
  have hclosure : closure ["top"] diamond = (.ok ["base", "left", "right", "top"], diamond) := rfl
  ⟨by decide, h.1 5 (by decide), hclosure, (h.2.2 _ _ hclosure).2.2.2.2⟩

end PropExport.Archive
