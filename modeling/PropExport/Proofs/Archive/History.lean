import PropExport.Proofs.Archive.Coherence

/-!
# Histories of an archive

Units are compiled, compiled again with other imports and refused, in one archive or in several that
are opened one after the other on the same files. Whatever happens, the stored imports make no
cycle, as the one test on each new unit is enough to keep them so. Where the files of different
units are apart, everything that a stored unit imports is stored too.
-/

namespace PropExport.Archive

open ImportGraph Relation

/-- The archives that come from one by compiling units, successfully or not, and by opening it
afresh. -/
inductive Evolves (start : Archive) : Archive → Prop
  | refl : Evolves start start
  | compile {a : Archive} (keyword : String) (source : UnitSource) :
      Evolves start a → Evolves start (compile keyword source a).2
  | reopen {a : Archive} : Evolves start a → Evolves start a.reopened

/-- A unit has its file at a location, once the directories on the way to it are there. -/
def EntryAt (a : Archive) (unit : String) (loc : Location) : Prop :=
  isUnitName unit = true ∧ ∃ tree : FileTree, tree.resolve (a.entryFile unit) = .ok loc

/-- Nothing is remembered, and no file stands where a unit has its file. -/
structure Vacant (a : Archive) : Prop where
  known_eq : a.known = []
  no_file : ∀ unit loc content, a.EntryAt unit loc → a.files.node? loc ≠ some (.file content)

/-- An archive whose files were written for units whose paths lead to them, which gives for every
unit the log in its file if there is one, and in which the imports make no cycle. -/
structure Orderly (a : Archive) : Prop where
  written : ∀ unit loc content, a.EntryAt unit loc → a.files.node? loc = some (.file content) →
    ∃ log : UnitLog, content = log.toJson.pretty ∧
      a.files.resolve (a.entryFile log.unit) = .ok loc
  stored_of_fileLog : ∀ unit log, a.fileLog unit = .ok log → a.stored unit = .ok log
  acyclic : a.graph.Acyclic

/-- A unit whose log was given by another archive had its imports there. -/
theorem imports_mono {a b : Archive} {unit other : String}
    (h : ∀ log, b.stored unit = .ok log → a.stored unit = .ok log)
    (himports : b.graph.Imports unit other) : a.graph.Imports unit other := by
  obtain ⟨log, hlog, hother⟩ := exists_stored_of_imports himports
  exact ⟨log.imports, by rw [graph, h log hlog]; rfl, hother⟩

/-- The log in the file of a unit stands where the unit has its file. -/
theorem exists_entryAt_of_fileLog {a : Archive} {unit : String} {log : UnitLog}
    (h : a.fileLog unit = .ok log) :
    ∃ loc content, a.EntryAt unit loc ∧ a.files.node? loc = some (.file content) ∧
      UnitLog.parse content = .ok log ∧ log.unit = unit := by
  obtain ⟨hname, hunit, content, hread, hparse⟩ := fileLog_eq_ok_iff.mp h
  obtain ⟨loc, hloc, hnode⟩ := FileTree.read_eq_ok_iff.mp hread
  exact ⟨loc, content, ⟨hname, a.files, hloc⟩, hnode, hparse, hunit⟩

private theorem Vacant.fileLog_ne {a : Archive} (h : a.Vacant) (unit : String) (log : UnitLog) :
    a.fileLog unit ≠ .ok log := by
  intro hlog
  obtain ⟨loc, content, hentry, hnode, _⟩ := exists_entryAt_of_fileLog hlog
  exact h.no_file unit loc content hentry hnode

private theorem orderly_of_vacant {a : Archive} (h : a.Vacant) : a.Orderly := by
  refine ⟨?_, ?_, ?_⟩
  · intro unit loc content hentry hnode
    exact absurd hnode (h.no_file unit loc content hentry)
  · intro unit log hlog
    exact absurd hlog (h.fileLog_ne unit log)
  · intro unit hcycle
    obtain ⟨_, himports, _⟩ := TransGen.head'_iff.mp hcycle
    obtain ⟨log, hlog, _⟩ := exists_stored_of_imports himports
    rw [stored_eq, h.known_eq] at hlog
    exact h.fileLog_ne unit log hlog

namespace Orderly

variable {a b : Archive} {new : Option UnitLog}

/-- A log that stands where its unit has its file can be read there. -/
theorem fileLog_of_node (h : a.Orderly) {loc : Location} {content : String} {log : UnitLog}
    (hentry : a.EntryAt log.unit loc) (hnode : a.files.node? loc = some (.file content))
    (hparse : UnitLog.parse content = .ok log) : a.fileLog log.unit = .ok log := by
  obtain ⟨found, rfl, hloc⟩ := h.written log.unit loc content hentry hnode
  obtain rfl : found = log :=
    Except.ok.inj ((UnitLog.parse_written .indented found).symm.trans hparse)
  exact fileLog_eq_ok_iff.mpr ⟨hentry.1, rfl, _, FileTree.read_eq_ok_iff.mpr ⟨loc, hloc, hnode⟩,
    hparse⟩

/-- The log that a unit has in its file is new or was there before. -/
theorem fileLog_of_advances (h : a.Orderly) (hstep : a.Advances new b) {unit : String}
    {log : UnitLog} (hlog : b.fileLog unit = .ok log) :
    a.fileLog unit = .ok log ∨ ∃ added ∈ new, added.unit = unit := by
  obtain ⟨loc, content, hentry, hnode, hparse, rfl⟩ := exists_entryAt_of_fileLog hlog
  rcases hstep.file_of_file hnode with hbefore | ⟨added, hadded, _, rfl⟩
  · rw [EntryAt, hstep.entryFile_eq] at hentry
    exact .inl (h.fileLog_of_node hentry hbefore hparse)
  · rw [Json.pretty, UnitLog.parse_written] at hparse
    exact .inr ⟨added, hadded, congrArg UnitLog.unit (Except.ok.inj hparse)⟩

/-- The log that is given for a unit is new or was given before. -/
theorem stored_of_advances (h : a.Orderly) (hstep : a.Advances new b) {unit : String}
    {log : UnitLog} (hlog : b.stored unit = .ok log) :
    a.stored unit = .ok log ∨ ∃ added ∈ new, added.unit = unit := by
  rcases stored_eq_ok hlog with hknown | hfile
  · exact hstep.stored_of_known hknown
  · exact (h.fileLog_of_advances hstep hfile).imp_left (h.stored_of_fileLog unit log)

/-- Compiling leaves an archive in order. -/
theorem advances (h : a.Orderly) (hstep : a.Advances new b) : b.Orderly := by
  refine ⟨?_, ?_, ?_⟩
  · intro unit loc content hentry hnode
    rcases hstep.file_of_file hnode with hbefore | ⟨added, _, hloc, hcontent⟩
    · rw [EntryAt, hstep.entryFile_eq] at hentry
      obtain ⟨log, hcontent, hloc⟩ := h.written unit loc content hentry hbefore
      refine ⟨log, hcontent, ?_⟩
      rw [hstep.entryFile_eq]
      exact hstep.keepsDirs.resolve hloc
    · exact ⟨added, hcontent, hloc⟩
  · intro unit log hlog
    by_cases hnew : ∃ added ∈ new, added.unit = unit
    · obtain ⟨added, hadded, rfl⟩ := hnew
      rw [hstep.fileLog_new added hadded] at hlog
      rw [stored_of_known (hstep.known_new added hadded), hlog]
    · have hbefore := (h.fileLog_of_advances hstep hlog).resolve_right hnew
      cases hknown : b.known.lookup unit with
      | none => rw [stored_eq, hknown, hlog]
      | some found =>
        have hfound := (hstep.stored_of_known hknown).resolve_right hnew
        rw [h.stored_of_fileLog unit log hbefore] at hfound
        rw [stored_of_known hknown, Except.ok.inj hfound]
  · cases new with
    | none =>
      refine h.acyclic.mono fun unit _ => imports_mono fun log hlog => ?_
      exact (h.stored_of_advances hstep hlog).resolve_right (by simp)
    | some added =>
      -- one unit has new imports, which did not reach it
      have hunit : b.graph added.unit = .ok added.imports := by
        rw [graph, stored_of_known (hstep.known_new added rfl)]
        rfl
      refine Acyclic.update ?_ h.acyclic hunit (hstep.not_reaches_new added rfl)
      intro unit _ hne
      refine imports_mono fun log hlog => (h.stored_of_advances hstep hlog).resolve_right ?_
      rintro ⟨_, ⟨⟩, rfl⟩
      exact hne rfl

/-- Opening an archive afresh leaves it in order. -/
theorem reopened (h : a.Orderly) : a.reopened.Orderly := by
  have hfile : a.reopened.fileLog = a.fileLog := fileLog_congr rfl rfl rfl
  refine ⟨h.written, ?_, h.acyclic.mono fun unit _ => imports_mono fun log hlog => ?_⟩
  · intro unit log hlog
    rw [stored_reopened, ← hfile, hlog]
  · rw [stored_reopened] at hlog
    exact h.stored_of_fileLog unit log hlog

end Orderly

/-- An archive stays in order. -/
theorem Evolves.orderly {start a : Archive} (h : start.Evolves a) (hstart : start.Vacant) :
    a.Orderly := by
  induction h with
  | refl => exact orderly_of_vacant hstart
  | compile keyword source _ ih =>
    obtain ⟨_, hstep⟩ := advances_compile keyword source _
    exact ih.advances hstep
  | reopen _ ih => exact ih.reopened

/-- What is remembered is what the files hold, and what a log imports has a log. -/
structure Closed (a : Archive) : Prop where
  coherent : a.Coherent
  imports : ∀ unit log other, a.fileLog unit = .ok log → other ∈ log.imports →
    ∃ found, a.fileLog other = .ok found

namespace Closed

variable {a b : Archive} {new : Option UnitLog}

/-- Where files are apart, compiling leaves nothing without its imports. -/
theorem advances (h : a.Closed) (horderly : a.Orderly) (hstep : a.Advances new b)
    (hapart : b.Separated) : b.Closed := by
  -- whatever had a log still has one
  have hkept {unit : String} {log : UnitLog} (hlog : a.fileLog unit = .ok log) :
      ∃ found, b.fileLog unit = .ok found := by
    by_cases hnew : ∃ added ∈ new, added.unit = unit
    · obtain ⟨added, hadded, rfl⟩ := hnew
      exact ⟨added, hstep.fileLog_new added hadded⟩
    · refine ⟨log, hstep.fileLog_of_separated hapart ?_ hlog⟩
      exact fun added hadded hunit => hnew ⟨added, hadded, hunit.symm⟩
  refine ⟨hstep.coherent hapart h.coherent, ?_⟩
  intro unit log other hlog hother
  rcases horderly.fileLog_of_advances hstep hlog with hbefore | ⟨added, hadded, rfl⟩
  · obtain ⟨found, hfound⟩ := h.imports unit log other hbefore hother
    exact hkept hfound
  · rw [hstep.fileLog_new added hadded] at hlog
    rw [← Except.ok.inj hlog] at hother
    obtain ⟨found, hfound⟩ := hstep.imports_new added hadded other hother
    exact hkept (h.coherent.fileLog_of_stored hfound)

/-- Opening an archive afresh loses no import. -/
theorem reopened (h : a.Closed) : a.reopened.Closed := by
  have hfile : a.reopened.fileLog = a.fileLog := fileLog_congr rfl rfl rfl
  refine ⟨fun _ _ hlog => (nomatch hlog), ?_⟩
  rw [hfile]
  exact h.imports

/-- All that a stored unit reaches is stored. -/
theorem exists_fileLog_of_reaches (h : a.Closed) {unit other : String} {log : UnitLog}
    (hlog : a.fileLog unit = .ok log) (hreach : a.graph.Reaches [unit] other) :
    ∃ found, a.fileLog other = .ok found := by
  obtain ⟨_, hname, hpath⟩ := hreach
  obtain rfl := List.mem_singleton.mp hname
  induction hpath with
  | refl => exact ⟨log, hlog⟩
  | tail _ himports ih =>
    obtain ⟨found, hfound, hother⟩ := exists_stored_of_imports himports
    exact h.imports _ found _ (h.coherent.fileLog_of_stored hfound) hother

end Closed

/-- As long as the files of different units are apart, nothing is without its imports. -/
theorem Evolves.closed {start a : Archive} (h : start.Evolves a) (hstart : start.Vacant)
    (hapart : a.Separated) : a.Closed := by
  induction h with
  | refl =>
    refine ⟨fun unit log hlog => ?_,
      fun unit log _ hlog => absurd hlog (hstart.fileLog_ne unit log)⟩
    rw [hstart.known_eq] at hlog
    cases hlog
  | compile keyword source hbefore ih =>
    obtain ⟨_, hstep⟩ := advances_compile keyword source _
    exact (ih (hstep.separated hapart)).advances (hbefore.orderly hstart) hstep hapart
  | reopen _ ih => exact (ih hapart).reopened

section Acyclic

variable {a : Archive} (h : a.graph.Acyclic)

include h

/-- Imports that make no cycle and all load are finished. -/
theorem exists_closure_eq_ok {names : List String}
    (hloads : ∀ unit, a.graph.Reaches names unit → ∃ log, a.stored unit = .ok log) :
    ∃ visits, a.graph.PostOrder names visits ∧ (closure names a).1 = .ok visits.eraseDups := by
  obtain ⟨visits, hvisits⟩ := (exists_postOrder_iff a.graph_loadsAtMost).mpr
    ⟨fun unit hreach => loads_graph_iff.mpr (hloads unit hreach), fun unit _ => h unit⟩
  exact ⟨visits, hvisits, closure_eq_ok_iff.mpr ⟨visits, hvisits, rfl⟩⟩

/-- Where the imports make no cycle, none is found. -/
theorem closure_ne_importCycle (names chain : List String) :
    (closure names a).1 ≠ .error (.importCycle chain) := by
  intro hfail
  obtain ⟨_, hwalk, _⟩ := closure_apply names a
  rw [hwalk] at hfail
  obtain ⟨unit, _, hunit | hunit⟩ :=
    foldlM_visit_eq_error a.graph_loadsAtMost (Nat.lt_succ_self _) hfail
  · exact stored_ne_importCycle a unit chain (graph_eq_error_iff.mp hunit)
  · exact h unit hunit

private theorem compile_ne_importCycle (keyword : String) (source : UnitSource)
    (chain : List String) : (compile keyword source a).1 ≠ .error (.importCycle chain) := by
  intro hcycle
  have houtcome := outcome_compile keyword source a
  rw [hcycle] at houtcome
  generalize (compile keyword source a).2 = b at houtcome
  cases houtcome with
  | imports _ hclosure =>
    exact closure_ne_importCycle h source.imports chain (congrArg Prod.fst hclosure)
  | log _ _ _ hne => exact hne chain rfl

private theorem ledgerOf_ne_importCycle (unit : String) (chain : List String) :
    (ledgerOf unit a).1 ≠ .error (.importCycle chain) := by
  intro hcycle
  unfold ledgerOf at hcycle
  rcases hclosure : closure [unit] a with ⟨e | units, b⟩
  · rw [bind_of_error hclosure] at hcycle
    cases hcycle
    exact closure_ne_importCycle h [unit] chain (congrArg Prod.fst hclosure)
  · rw [bind_of_ok hclosure, bind_of_ok (logs_apply units b)] at hcycle
    cases hcycle

/-- A unit that its imports reach is refused before anything is written. It is said to import itself
if its name is proper and all that its imports reach loads. -/
theorem compile_of_reaches_self (keyword : String) {source : UnitSource}
    (hself : a.graph.Reaches source.imports source.name) :
    ∃ e b, compile keyword source a = (.error e, b) ∧ b.files = a.files ∧
      (isUnitName source.name = true →
        (∀ unit, a.graph.Reaches source.imports unit → ∃ log, a.stored unit = .ok log) →
        e = .importsItself source.name) := by
  rcases hcompile : compile keyword source a with ⟨e | report, b⟩
  · refine ⟨e, b, rfl, ?_⟩
    have houtcome := outcome_compile keyword source a
    rw [hcompile] at houtcome
    cases houtcome with
    | name hname => exact ⟨rfl, fun hname' => absurd hname' hname⟩
    | imports _ hclosure =>
      refine ⟨(recalls_closure hclosure).files_eq, fun _ hloads => ?_⟩
      obtain ⟨_, _, hok⟩ := exists_closure_eq_ok h hloads
      rw [hclosure] at hok
      cases hok
    | itself _ hclosure _ => exact ⟨(recalls_closure hclosure).files_eq, fun _ _ => rfl⟩
    | log hclosure hnot _ _ =>
      obtain ⟨visits, hvisits, rfl⟩ := closure_eq_ok_iff.mp (congrArg Prod.fst hclosure)
      exact absurd (List.mem_eraseDups.mpr (hvisits.mem_iff_reaches.mpr hself)) hnot
  · obtain ⟨_, _, _, _, _, _, hcompiled⟩ := compiled_of_compile hcompile
    exact absurd (hcompiled.postOrder.mem_iff_reaches.mpr hself) hcompiled.not_mem

/-- A unit has a ledger if all it reaches loads. -/
theorem exists_ledgerOf_eq_ok {unit : String}
    (hloads : ∀ other, a.graph.Reaches [unit] other → ∃ log, a.stored other = .ok log) :
    ∃ ledger, (ledgerOf unit a).1 = .ok ledger := by
  obtain ⟨visits, hvisits, hclosure⟩ := exists_closure_eq_ok h hloads
  obtain ⟨b, hwalk, _, hremembers⟩ := closure_apply [unit] a
  have hok : closure [unit] a = (.ok visits.eraseDups, b) := by
    rw [← hclosure, hwalk]
  obtain ⟨found, hlogs, _⟩ := logs_of_remembers (hremembers _ hok)
  refine ⟨Ledger.merge found, ?_⟩
  unfold ledgerOf
  rw [bind_of_ok hok, bind_of_ok hlogs]
  rfl

end Acyclic

/-- Whatever is compiled in an archive that started without logs, the imports of the stored units
make no cycle and none is ever reported; a unit that would close one is refused and nothing is
written. As long as the files of different units are apart, as they are where the suffix of the
files has no slash in it, all that a stored unit imports, directly or through others, is stored, and
the unit has a ledger, in this archive and in one that is opened afresh. -/
theorem evolves_closed_and_acyclic {start a : Archive} (hstart : start.Vacant)
    (h : start.Evolves a) :
    a.graph.Acyclic ∧ a.reopened.graph.Acyclic ∧
    (∀ keyword source chain, (compile keyword source a).1 ≠ .error (.importCycle chain)) ∧
    (∀ unit chain, (ledgerOf unit a).1 ≠ .error (.importCycle chain)) ∧
    (∀ keyword source, a.graph.Reaches source.imports source.name →
      ∃ e b, compile keyword source a = (.error e, b) ∧ b.files = a.files ∧
        (isUnitName source.name = true →
          (∀ unit, a.graph.Reaches source.imports unit → ∃ log, a.stored unit = .ok log) →
          e = .importsItself source.name)) ∧
    (a.Separated → ∀ unit log, a.fileLog unit = .ok log →
      (∀ other, a.reopened.graph.Reaches [unit] other → ∃ found, a.fileLog other = .ok found) ∧
      ∃ ledger, (ledgerOf unit a).1 = .ok ledger ∧ (ledgerOf unit a.reopened).1 = .ok ledger) ∧
    ('/' ∉ a.suffix.toList → a.Separated) := by
  have horderly := h.orderly hstart
  refine ⟨horderly.acyclic, horderly.reopened.acyclic, compile_ne_importCycle horderly.acyclic,
    ledgerOf_ne_importCycle horderly.acyclic,
    fun keyword _ => compile_of_reaches_self horderly.acyclic keyword, ?_, separated_of_no_slash⟩
  intro hapart unit log hlog
  have hclosed := h.closed hstart hapart
  have halike := hclosed.coherent.alike_reopened
  have hreach {other : String} (hother : a.graph.Reaches [unit] other) :
      ∃ found, a.fileLog other = .ok found := hclosed.exists_fileLog_of_reaches hlog hother
  refine ⟨fun other hother => hreach (halike.graph_eq ▸ hother), ?_⟩
  obtain ⟨ledger, hledger⟩ := exists_ledgerOf_eq_ok horderly.acyclic fun other hother => by
    obtain ⟨found, hfound⟩ := hreach hother
    exact ⟨found, horderly.stored_of_fileLog other found hfound⟩
  exact ⟨ledger, hledger, (halike.ledgerOf_eq _).trans hledger⟩

/-- Without any files there are no logs. -/
theorem vacant_archive (options : Options) : (options.archive {}).Vacant := by
  refine ⟨rfl, fun _ loc content _ hnode => ?_⟩
  have hlisted := FileTree.mem_nodes_of_node? hnode
  cases hlisted

/-- What a log in a file imports is reached in a fresh archive. -/
theorem reaches_reopened {a : Archive} {unit other : String} {log : UnitLog}
    (h : a.fileLog unit = .ok log) (hother : other ∈ log.imports) :
    a.reopened.graph.Reaches [unit] other := by
  refine ⟨unit, by simp, .single ⟨log.imports, ?_, hother⟩⟩
  rw [graph, stored_reopened, h]
  rfl

/-- A unit and one that imports it, and the attempt to turn the import around. -/
theorem evolves_turned_around :
    let start := Options.archive {} {}
    let a := (compile "axiom" ⟨"top", ["base"], []⟩ (compile "axiom" ⟨"base", [], []⟩ start).2).2
    start.Vacant ∧ start.Evolves a ∧ a.Separated ∧ a.graph.Acyclic ∧
    a.fileLog "top" = .ok ⟨"top", ["base"], []⟩ ∧
    (∃ ledger, (ledgerOf "top" a).1 = .ok ledger ∧ (ledgerOf "top" a.reopened).1 = .ok ledger) ∧
    a.graph.Reaches ["top"] "base" ∧
    ∃ b, compile "axiom" ⟨"base", ["top"], []⟩ a = (.error (.importsItself "base"), b) ∧
      b.files = a.files := by
  intro start a
  have hstart : start.Vacant := vacant_archive {}
  have hevolves : start.Evolves a := .compile _ _ (.compile _ _ .refl)
  have htop : a.fileLog "top" = .ok ⟨"top", ["base"], []⟩ := by decide +kernel
  have hslash : '/' ∉ a.suffix.toList := by decide +kernel
  -- from here on the units need not be compiled again
  clear_value a
  obtain ⟨hacyclic, _, _, _, hrefused, hclosed, hapart⟩ :=
    evolves_closed_and_acyclic hstart hevolves
  obtain ⟨hreach, hledger⟩ := hclosed (hapart hslash) "top" _ htop
  have hgraph := (hevolves.closed hstart (hapart hslash)).coherent.alike_reopened.graph_eq
  rw [hgraph] at hreach
  have hself : a.graph.Reaches ["top"] "base" := hgraph ▸ reaches_reopened htop (by simp)
  refine ⟨hstart, hevolves, hapart hslash, hacyclic, htop, hledger, hself, ?_⟩
  obtain ⟨e, b, hcompile, hfiles, herror⟩ := hrefused "axiom" ⟨"base", ["top"], []⟩ hself
  obtain rfl : e = .importsItself "base" := herror (by decide) fun unit hunit => by
    obtain ⟨found, hfound⟩ := hreach unit hunit
    exact ⟨found, (hevolves.orderly hstart).stored_of_fileLog _ _ hfound⟩
  exact ⟨b, hcompile, hfiles⟩

/-- Where the suffix leads out of directories that are created on the way to the build directory,
two units have the same file, and the one that is compiled last has an import without a log. A unit
that imports itself before it was ever compiled is refused for want of a log. -/
theorem evolves_overlapping :
    (let start := Options.archive { buildDir := "build/A.x/../B.x/..", suffix := "x/../log" } {}
      let a := (compile "axiom" ⟨"A", ["B"], []⟩ (compile "axiom" ⟨"B", [], []⟩ start).2).2
      start.Vacant ∧ start.Evolves a ∧ a.reopened.graph.Reaches ["A"] "B" ∧
      a.fileLog "A" = .ok ⟨"A", ["B"], []⟩ ∧
      a.fileLog "B" = .error (.foreignLog "build/A.x/../B.x/../B.x/../log" "A" "B") ∧
      (ledgerOf "A" a.reopened).1.map (fun _ => ()) =
        .error (.foreignLog "build/A.x/../B.x/../B.x/../log" "A" "B")) ∧
    (compile "axiom" ⟨"A", ["A"], []⟩ (Options.archive {} {})).1.map (fun _ => ()) =
      .error (.notCompiled "A" "build/A.dafny.json") := by
  refine ⟨?_, by decide +kernel⟩
  intro start a
  have hvalues : a.fileLog "A" = .ok ⟨"A", ["B"], []⟩ ∧
      a.fileLog "B" = .error (.foreignLog "build/A.x/../B.x/../B.x/../log" "A" "B") ∧
      (ledgerOf "A" a.reopened).1.map (fun _ => ()) =
        .error (.foreignLog "build/A.x/../B.x/../B.x/../log" "A" "B") := by decide +kernel
  exact ⟨vacant_archive _, .compile _ _ (.compile _ _ .refl),
    reaches_reopened hvalues.1 (by simp), hvalues⟩

end PropExport.Archive
