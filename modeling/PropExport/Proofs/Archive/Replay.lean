import PropExport.Proofs.Archive.Compile
import PropExport.Proofs.Files.Names

/-!
# Replaying a compiled unit

The ledger at the end of a compilation is found again by replaying logs, in the archive that
compiled the unit and in one that is opened afresh on the same files. A fresh archive reads every
log from its file, so it depends on the new log not having been written over the file of a unit that
it imports; unit names rule that out unless the suffix of the files leads to another directory.
-/

namespace PropExport.Archive

open ImportGraph Relation

/-- What is remembered is what the files hold. -/
def Coherent (a : Archive) : Prop :=
  ∀ unit log, a.known.lookup unit = some log → a.fileLog unit = .ok log

/-- An archive opened afresh on the same files. -/
def reopened (a : Archive) : Archive where
  buildDir := a.buildDir
  suffix := a.suffix
  files := a.files

/-- A fresh archive gives what the files hold. -/
theorem stored_reopened (a : Archive) (unit : String) :
    a.reopened.stored unit = a.fileLog unit := by
  rw [stored_eq, fileLog_congr (a := a) (b := a.reopened) rfl rfl rfl]
  rfl

/-- A coherent archive gives a log only if the file of the unit holds it. -/
theorem Coherent.fileLog_of_stored {a : Archive} (h : a.Coherent) {unit : String} {log : UnitLog}
    (hstored : a.stored unit = .ok log) : a.fileLog unit = .ok log := by
  rcases stored_eq_ok hstored with hlog | hlog
  · exact h unit log hlog
  · exact hlog

/-- The ledger at the end of a unit merges the logs of all that the unit reaches, in the order in
which a walk finishes them. -/
theorem ledgerOf_eq_ok_iff {a : Archive} {unit : String} {ledger : Ledger} :
    (ledgerOf unit a).1 = .ok ledger ↔
      ∃ visits found, a.graph.PostOrder [unit] visits ∧
        List.Forall₂ (fun unit log => a.stored unit = .ok log) visits.eraseDups found ∧
        ledger = Ledger.merge found := by
  obtain ⟨b, hwalk, hrecalls, hremembers⟩ := closure_apply [unit] a
  -- what a walk that succeeds leads to
  have hlogs (order : List String) (h : closure [unit] a = (.ok order, b)) :
      ∃ found, (ledgerOf unit a).1 = .ok (Ledger.merge found) ∧
        List.Forall₂ (fun unit log => a.stored unit = .ok log) order found := by
    obtain ⟨found, hlogs, hfound⟩ := logs_of_remembers (hremembers order h)
    refine ⟨found, ?_, hfound.imp fun unit log hlog => ?_⟩
    · unfold ledgerOf
      rw [bind_of_ok h, bind_of_ok hlogs]
      rfl
    · rw [← hrecalls.stored_eq]
      exact stored_of_known hlog
  constructor
  · intro h
    cases hclosure : (closure [unit] a).1 with
    | error e =>
      have hfail : closure [unit] a = (.error e, b) := by
        rw [← hclosure, hwalk]
      unfold ledgerOf at h
      rw [bind_of_error hfail] at h
      cases h
    | ok order =>
      have hok : closure [unit] a = (.ok order, b) := by
        rw [← hclosure, hwalk]
      obtain ⟨visits, hvisits, rfl⟩ := closure_eq_ok_iff.mp hclosure
      obtain ⟨found, hledger, hfound⟩ := hlogs _ hok
      exact ⟨visits, found, hvisits, hfound, Except.ok.inj (h.symm.trans hledger)⟩
  · rintro ⟨visits, found, hvisits, hfound, rfl⟩
    have hclosure := closure_eq_ok_iff.mpr ⟨visits, hvisits, rfl⟩
    have hok : closure [unit] a = (.ok visits.eraseDups, b) := by
      rw [← hclosure, hwalk]
    obtain ⟨found', hledger, hfound'⟩ := hlogs _ hok
    have hunique : Relator.RightUnique fun unit log => a.stored unit = .ok log :=
      fun _ _ _ h h' => Except.ok.inj (h.symm.trans h')
    rw [hledger, List.right_unique_forall₂' hunique hfound hfound']

/-- The file of a unit has a proper name unless the suffix has a slash in it. -/
theorem isName_of_isUnitName {unit suffix : String} (h : isUnitName unit = true)
    (hsuffix : '/' ∉ suffix.toList) : Path.IsName (unit ++ "." ++ suffix) := by
  simp only [isUnitName, Bool.and_eq_true, bne_iff_ne, List.all_eq_true] at h
  obtain ⟨hempty, hchars⟩ := h
  have hlength : 0 < unit.length := by
    rw [← String.length_toList, List.length_pos_iff]
    simpa using hempty
  refine ⟨?_, ?_, ?_⟩
  · intro heq
    have := congrArg String.length heq
    simp only [String.length_append, String.length_empty] at this
    omega
  · intro heq
    have hdot : ".".length = 1 := rfl
    have := congrArg String.length heq
    simp only [String.length_append, hdot] at this
    omega
  · intro hslash
    simp only [String.toList_append, List.mem_append] at hslash
    rcases hslash with (hslash | hslash) | hslash
    · exact (hchars '/' hslash).1 rfl
    · simp at hslash
    · exact hsuffix hslash

/-- Different units have files with different names. -/
theorem entryName_ne {unit other suffix : String} (h : unit ≠ other) :
    unit ++ "." ++ suffix ≠ other ++ "." ++ suffix := by
  intro heq
  have htext := congrArg String.toList heq
  simp only [String.toList_append] at htext
  exact h (String.toList_inj.mp (List.append_cancel_right (List.append_cancel_right htext)))

/-- Without a slash in the suffix, the files of different units are at different locations. -/
theorem eq_of_resolve_entryFile {a : Archive} {tree : FileTree} {unit other : String}
    {loc : Location} (hsuffix : '/' ∉ a.suffix.toList) (hunit : isUnitName unit = true)
    (hother : isUnitName other = true) (h : tree.resolve (a.entryFile unit) = .ok loc)
    (h' : tree.resolve (a.entryFile other) = .ok loc) : unit = other := by
  have hsame := FileTree.resolve_join_injective (isName_of_isUnitName hunit hsuffix)
    (isName_of_isUnitName hother hsuffix) h h'
  exact by_contra fun hne => entryName_ne hne hsame

/-- The log of a unit was added to an archive, after all that the unit imports was finished. -/
structure Compiled (a : Archive) (source : UnitSource) (visits : List String)
    (imported : List UnitLog) (log : UnitLog) (b : Archive) : Prop where
  postOrder : a.graph.PostOrder source.imports visits
  not_mem : source.name ∉ visits
  imported : List.Forall₂ (fun unit log => a.stored unit = .ok log) visits.eraseDups imported
  unit_eq : log.unit = source.name
  imports_eq : log.imports = source.imports
  stores : ∃ mid, a.Recalls mid ∧ mid.Remembers visits.eraseDups ∧ mid.Stores log b

/-- What a compilation that succeeds does to an archive. -/
theorem compiled_of_compile {keyword : String} {source : UnitSource} {report : Report}
    {a b : Archive} (h : compile keyword source a = (.ok report, b)) :
    ∃ units mid imported visits, closure source.imports a = (.ok units, mid) ∧
      logs units mid = (.ok imported, mid) ∧
      Compiled a source visits imported (session keyword source imported).log b := by
  obtain ⟨units, mid, imported, hclosure, hself, hlogs, hstores⟩ := compile_eq_ok h
  obtain ⟨visits, hvisits, rfl⟩ := closure_eq_ok_iff.mp (congrArg Prod.fst hclosure)
  obtain ⟨b', hwalk, hrecalls, hremembers⟩ := closure_apply source.imports a
  obtain rfl : mid = b' := congrArg Prod.snd (hclosure.symm.trans hwalk)
  obtain ⟨found, hfound, hall⟩ := logs_of_remembers (hremembers _ hclosure)
  obtain rfl : imported = found := Except.ok.inj (congrArg Prod.fst (hlogs.symm.trans hfound))
  obtain ⟨hunit, himports, _⟩ := session_draft keyword source imported
  refine ⟨_, mid, imported, visits, hclosure, hlogs, hvisits, ?_, ?_, hunit, himports, mid,
    hrecalls, hremembers _ hclosure, hstores⟩
  · rwa [List.mem_eraseDups] at hself
  · refine hall.imp fun unit log hlog => ?_
    rw [← hrecalls.stored_eq]
    exact stored_of_known hlog

namespace Compiled

variable {a b : Archive} {source : UnitSource} {visits : List String} {imported : List UnitLog}
  {log : UnitLog}

/-- Where the unit has the new log and all it imports have theirs, replaying gives the ledger of the
imported units with the new entries on top. -/
theorem ledgerOf_of_agree (h : Compiled a source visits imported log b) {c : Archive}
    (hown : c.stored source.name = .ok log)
    (hagree : ∀ unit ∈ visits, c.stored unit = a.stored unit) :
    (ledgerOf source.name c).1 = .ok ((Ledger.merge imported).replay log.entries) := by
  have hbelow : c.graph.PostOrder source.imports visits := by
    refine h.postOrder.congr fun unit hunit => ?_
    rw [graph, graph, hagree unit hunit]
  have hroot : c.graph source.name = .ok source.imports := by
    rw [graph, hown, ← h.imports_eq]
    rfl
  refine ledgerOf_eq_ok_iff.mpr ⟨visits ++ [source.name], imported ++ [log],
    .single hroot hbelow, ?_, (Ledger.merge_concat imported log).symm⟩
  have hsame : ∀ unit ∈ visits.eraseDups, c.stored unit = a.stored unit :=
    fun unit hunit => hagree unit (List.mem_eraseDups.mp hunit)
  have himported := ((List.forall₂_and_left _ _).mpr ⟨hsame, h.imported⟩).imp
    fun unit log hlog => hlog.1.trans hlog.2
  rw [eraseDups_append_singleton h.not_mem]
  exact List.rel_append himported (.cons hown .nil)

section Remembered

variable (h : Compiled a source visits imported log b)

include h

/-- The new log is remembered. -/
theorem stored_self : b.stored source.name = .ok log := by
  obtain ⟨mid, _, _, hstores⟩ := h.stores
  apply stored_of_known
  rw [hstores.known_eq, ← h.unit_eq]
  simp

/-- The logs of the imported units are remembered. -/
theorem stored_of_mem {unit : String} (hunit : unit ∈ visits) : b.stored unit = a.stored unit := by
  obtain ⟨mid, hrecalls, hremembers, hstores⟩ := h.stores
  obtain ⟨found, hfound⟩ := hremembers unit (List.mem_eraseDups.mpr hunit)
  have hne : unit ≠ log.unit := by
    rintro rfl
    exact h.not_mem (h.unit_eq ▸ hunit)
  have hlater : b.known.lookup unit = some found := by
    rw [hstores.known_eq, List.lookup_cons, beq_eq_false_iff_ne.mpr hne]
    exact hfound
  rw [stored_of_known hlater, ← hrecalls.stored_eq, stored_of_known hfound]

end Remembered

section Files

variable (h : Compiled a source visits imported log b)

include h

/-- A path to the location of the new log reads it. -/
theorem read_of_resolve_eq {path : String}
    (heq : b.files.resolve path = b.files.resolve (b.entryFile source.name)) :
    b.files.read path = .ok log.toJson.pretty := by
  obtain ⟨_, _, _, hstores⟩ := h.stores
  exact hstores.read_of_resolve_eq (h.unit_eq ▸ heq)

/-- The file of the unit holds the new log. -/
theorem fileLog_self : b.fileLog source.name = .ok log := by
  obtain ⟨_, _, _, hstores⟩ := h.stores
  exact h.unit_eq ▸ hstores.fileLog_self

/-- Where the file of another unit is at the same location, it holds the wrong log. -/
theorem fileLog_ne_ok_of_resolve_eq {unit : String} {found : UnitLog} (hne : unit ≠ source.name)
    (heq : b.files.resolve (b.entryFile unit) = b.files.resolve (b.entryFile source.name)) :
    b.fileLog unit ≠ .ok found := by
  intro hfile
  obtain ⟨_, hunit, content, hread, hparse⟩ := fileLog_eq_ok_iff.mp hfile
  rw [h.read_of_resolve_eq heq] at hread
  cases hread
  rw [Json.pretty, UnitLog.parse_written] at hparse
  cases hparse
  exact hne (hunit.symm.trans h.unit_eq)

/-- Where the file of another unit is at another location, it holds the same log as before. -/
theorem fileLog_of_fileLog {unit : String} {found : UnitLog} (hfile : a.fileLog unit = .ok found)
    (hne : b.files.resolve (b.entryFile unit) ≠ b.files.resolve (b.entryFile source.name)) :
    b.fileLog unit = .ok found := by
  obtain ⟨mid, hrecalls, _, hstores⟩ := h.stores
  refine hstores.fileLog_of_fileLog ?_ (h.unit_eq ▸ hne)
  rwa [fileLog_congr hrecalls.buildDir_eq hrecalls.suffix_eq hrecalls.files_eq]

/-- Where the file of an imported unit is at another location, it holds the log that the unit was
compiled with. -/
theorem fileLog_of_resolve_ne (hcoherent : a.Coherent) {unit : String} (hunit : unit ∈ visits)
    (hne : b.files.resolve (b.entryFile unit) ≠ b.files.resolve (b.entryFile source.name)) :
    b.fileLog unit = a.stored unit := by
  obtain ⟨found, hstored⟩ := loads_graph_iff.mp (h.postOrder.loads hunit)
  rw [hstored]
  exact h.fileLog_of_fileLog (hcoherent.fileLog_of_stored hstored) hne

/-- A fresh archive replays the unit exactly if the new log was not written over that of an imported
unit. -/
theorem ledgerOf_reopened_iff (hcoherent : a.Coherent) :
    (ledgerOf source.name b.reopened).1 = .ok ((Ledger.merge imported).replay log.entries) ↔
      ∀ unit, a.graph.Reaches source.imports unit →
        b.files.resolve (b.entryFile unit) ≠ b.files.resolve (b.entryFile source.name) := by
  constructor
  · intro hledger
    obtain ⟨visits', _, hvisits', _⟩ := ledgerOf_eq_ok_iff.mp hledger
    -- what loads in the fresh archive is not overwritten
    have hintact (unit : String) (hunit : unit ∈ visits) (hmem : unit ∈ visits') :
        b.files.resolve (b.entryFile unit) ≠ b.files.resolve (b.entryFile source.name) := by
      intro heq
      obtain ⟨found, hfound⟩ := loads_graph_iff.mp (hvisits'.loads hmem)
      rw [stored_reopened] at hfound
      have hne : unit ≠ source.name := by
        rintro rfl
        exact h.not_mem hunit
      exact h.fileLog_ne_ok_of_resolve_eq hne heq hfound
    have hroot : b.reopened.graph source.name = .ok source.imports := by
      rw [graph, stored_reopened, h.fileLog_self, ← h.imports_eq]
      rfl
    -- so the fresh archive reaches all that was reached before
    have hreach (unit : String) (hunit : a.graph.Reaches source.imports unit) :
        b.reopened.graph.Reaches [source.name] unit := by
      obtain ⟨name, hname, hpath⟩ := hunit
      induction hpath with
      | refl => exact ⟨source.name, by simp, .single ⟨_, hroot, hname⟩⟩
      | @tail mid unit hbefore himports ih =>
        obtain ⟨start, hstart, hsteps⟩ := ih
        have hmid : mid ∈ visits := h.postOrder.mem_iff_reaches.mpr ⟨name, hname, hbefore⟩
        have hmid' : mid ∈ visits' := hvisits'.mem_iff_reaches.mpr ⟨start, hstart, hsteps⟩
        have hsame : b.reopened.graph mid = a.graph mid := by
          rw [graph, graph, stored_reopened,
            h.fileLog_of_resolve_ne hcoherent hmid (hintact mid hmid hmid')]
        refine ⟨start, hstart, hsteps.tail ?_⟩
        obtain ⟨imports, hload, hmem⟩ := himports
        exact ⟨imports, hsame.trans hload, hmem⟩
    intro unit hunit
    exact hintact unit (h.postOrder.mem_iff_reaches.mpr hunit)
      (hvisits'.mem_iff_reaches.mpr (hreach unit hunit))
  · intro hne
    refine h.ledgerOf_of_agree ?_ fun unit hunit => ?_
    · rw [stored_reopened, h.fileLog_self]
    · rw [stored_reopened]
      exact h.fileLog_of_resolve_ne hcoherent hunit
        (hne unit (h.postOrder.mem_iff_reaches.mp hunit))

/-- Without a slash in the suffix, no imported unit has its file where the new log was written. -/
theorem resolve_ne_of_no_slash (hcoherent : a.Coherent) (hsuffix : '/' ∉ b.suffix.toList)
    {unit : String} (hunit : unit ∈ visits) :
    b.files.resolve (b.entryFile unit) ≠ b.files.resolve (b.entryFile source.name) := by
  intro heq
  obtain ⟨found, hstored⟩ := loads_graph_iff.mp (h.postOrder.loads hunit)
  have hname := (fileLog_eq_ok_iff.mp (hcoherent.fileLog_of_stored hstored)).1
  have hself := (fileLog_eq_ok_iff.mp h.fileLog_self).1
  obtain ⟨loc, hloc, _⟩ := FileTree.read_eq_ok_iff.mp (h.read_of_resolve_eq rfl)
  have hunits := eq_of_resolve_entryFile hsuffix hname hself (heq.trans hloc) hloc
  exact h.not_mem (hunits ▸ hunit)

end Files

/-- Where a compiled unit can be replayed, and that replaying gives the ledger of its session. -/
theorem ledgerOf_session {keyword : String}
    (h : Compiled a source visits imported (session keyword source imported).log b)
    (hcoherent : a.Coherent) :
    let ledger := (session keyword source imported).draft.ledger
    (ledgerOf source.name b).1 = .ok ledger ∧
    ((ledgerOf source.name b.reopened).1 = .ok ledger ↔
      ∀ unit, a.graph.Reaches source.imports unit →
        b.files.resolve (b.entryFile unit) ≠ b.files.resolve (b.entryFile source.name)) ∧
    ('/' ∉ b.suffix.toList → (ledgerOf source.name b.reopened).1 = .ok ledger) := by
  intro ledger
  have hledger : ledger =
      (Ledger.merge imported).replay (session keyword source imported).log.entries :=
    (session_draft keyword source imported).2.2
  have hfresh := h.ledgerOf_reopened_iff hcoherent
  rw [← hledger] at hfresh
  refine ⟨?_, hfresh, fun hsuffix => hfresh.mpr fun unit hunit => ?_⟩
  · rw [hledger]
    exact h.ledgerOf_of_agree h.stored_self fun unit hunit => h.stored_of_mem hunit
  · exact h.resolve_ne_of_no_slash hcoherent hsuffix (h.postOrder.mem_iff_reaches.mpr hunit)

end Compiled

/-- Replaying a compiled unit gives the ledger that its session ended with: always in the archive
that compiled it, and in one that is opened afresh exactly if no unit that it imports, directly or
through others, has its file where the new log was written. Where the suffix of the files has no
slash in it, none has. -/
theorem replay_eq_session_ledger {keyword : String} {source : UnitSource} {report : Report}
    {a b : Archive} (hcoherent : a.Coherent) (h : compile keyword source a = (.ok report, b)) :
    ∃ units mid imported, closure source.imports a = (.ok units, mid) ∧
      logs units mid = (.ok imported, mid) ∧
      (ledgerOf source.name b).1 = .ok (session keyword source imported).draft.ledger ∧
      ((ledgerOf source.name b.reopened).1 = .ok (session keyword source imported).draft.ledger ↔
        ∀ unit, a.graph.Reaches source.imports unit →
          b.files.resolve (b.entryFile unit) ≠ b.files.resolve (b.entryFile source.name)) ∧
      ('/' ∉ b.suffix.toList →
        (ledgerOf source.name b.reopened).1 =
          .ok (session keyword source imported).draft.ledger) := by
  obtain ⟨units, mid, imported, visits, hclosure, hlogs, hcompiled⟩ := compiled_of_compile h
  exact ⟨units, mid, imported, hclosure, hlogs, hcompiled.ledgerOf_session hcoherent⟩

/-- The log of a unit without imports. -/
def base : UnitLog :=
  ⟨"base", [], [.bind "one" "One", .publish "axiom A: One == One"]⟩

/-- An archive that remembers one unit and has its log in a file. -/
def ofBase (suffix : String) (dirs : List Location) (file : Location) : Archive where
  buildDir := "build"
  suffix
  files := { nodes := dirs.map (·, .directory) ++ [(file, .file base.toJson.pretty)] }
  known := [("base", base)]

/-- An archive that remembers one unit is coherent if the file of the unit can be read. -/
theorem coherent_ofBase {suffix : String} {dirs : List Location} {file : Location}
    (h : (ofBase suffix dirs file).files.read ((ofBase suffix dirs file).entryFile "base") =
      .ok base.toJson.pretty) : (ofBase suffix dirs file).Coherent := by
  intro unit log hlog
  by_cases hunit : unit = "base"
  · subst hunit
    obtain rfl : base = log := by simpa [ofBase] using hlog
    exact fileLog_eq_ok_iff.mpr ⟨by decide, rfl, _, h, UnitLog.parse_written .indented _⟩
  · simp [ofBase, List.lookup_cons, beq_eq_false_iff_ne.mpr hunit] at hlog

/-- A unit with an import and an alignment. -/
def dependent : UnitSource where
  name := "top"
  imports := ["base"]
  commands := [.declare "two" (.const "Nat") none [⟨"align_dafny", [.str "Two"]⟩], .dump]

/-- Every unit has a file of its own. -/
def ownFiles : Archive :=
  ofBase "log" [["build"]] ["build", "base.log"]

/-- A unit that was compiled on top of another is replayed, from memory and from the files. -/
theorem replay_ownFiles :
    ownFiles.Coherent ∧ ∃ report b imported,
      compile "axiom" dependent ownFiles = (.ok report, b) ∧ '/' ∉ b.suffix.toList ∧
      (ledgerOf "top" b).1 = .ok (session "axiom" dependent imported).draft.ledger ∧
      (ledgerOf "top" b.reopened).1 = .ok (session "axiom" dependent imported).draft.ledger := by
  have hcoherent : ownFiles.Coherent := coherent_ofBase (by decide +kernel)
  have hcompiles : (compile "axiom" dependent ownFiles).1.toBool = true := by decide +kernel
  have hsuffix : (compile "axiom" dependent ownFiles).2.suffix = "log" := by decide +kernel
  rcases hcompile : compile "axiom" dependent ownFiles with ⟨_ | report, b⟩
  · rw [hcompile] at hcompiles
    cases hcompiles
  · rw [hcompile] at hsuffix
    have hslash : '/' ∉ b.suffix.toList := by
      rw [hsuffix]
      decide
    obtain ⟨_, _, imported, _, _, hsame, _, hfresh⟩ := replay_eq_session_ledger hcoherent hcompile
    exact ⟨hcoherent, report, b, imported, rfl, hslash, hsame, hfresh hslash⟩

/-- The suffix leads out of a directory of its own, so that all units have the same file. -/
def overlapping : Archive :=
  ofBase "x/../log" [["build"], ["build", "base.x"], ["build", "top.x"]] ["build", "log"]

/-- Where all units have the same file, the log of the imported unit is gone after compiling. -/
theorem replay_overlapping :
    overlapping.Coherent ∧ ∃ report b,
      compile "axiom" dependent overlapping = (.ok report, b) ∧
      (ledgerOf "top" b.reopened).1.map (fun _ => ()) =
        .error (.foreignLog "build/base.x/../log" "top" "base") := by
  have hcoherent : overlapping.Coherent := coherent_ofBase (by decide +kernel)
  have hcompiles : (compile "axiom" dependent overlapping).1.toBool = true := by decide +kernel
  have hreplay : (ledgerOf "top" (compile "axiom" dependent overlapping).2.reopened).1.map
      (fun _ => ()) = .error (.foreignLog "build/base.x/../log" "top" "base") := by decide +kernel
  rcases hcompile : compile "axiom" dependent overlapping with ⟨_ | report, b⟩
  · rw [hcompile] at hcompiles
    cases hcompiles
  · rw [hcompile] at hreplay
    exact ⟨hcoherent, report, b, rfl, hreplay⟩

end PropExport.Archive
