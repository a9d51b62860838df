import PropExport.Proofs.Archive.Prepare

/-!
# Coherence

What an archive remembers is what its files hold, and compiling keeps it so as long as different
units have their files at different locations. So it makes no difference whether units are compiled
one after the other in the same archive or each of them in an archive that is opened for it.
-/

namespace PropExport.Archive

open ImportGraph

/-- The paths to the files of different units do not lead to the same location. -/
def Separated (a : Archive) : Prop :=
  ∀ unit other loc, isUnitName unit = true → isUnitName other = true →
    a.files.resolve (a.entryFile unit) = .ok loc →
    a.files.resolve (a.entryFile other) = .ok loc → unit = other

/-- Files are apart where the suffix has no slash in it. -/
theorem separated_of_no_slash {a : Archive} (h : '/' ∉ a.suffix.toList) : a.Separated :=
  fun _ _ _ hunit hother hloc hloc' => eq_of_resolve_entryFile h hunit hother hloc hloc'

/-- Files are also apart where the suffix leads into a directory of the unit's own. -/
theorem separated_of_suffix_pair {a : Archive} {stem name : String} (hstem : '/' ∉ stem.toList)
    (hname : Path.IsName name) (hup : name ≠ "..") (h : a.suffix = stem ++ "/" ++ name) :
    a.Separated := by
  intro unit other loc hunit hother hloc hloc'
  have hentry (unit : String) :
      a.entryFile unit = Path.join a.buildDir (unit ++ "." ++ stem ++ "/" ++ name) := by
    rw [entryFile, h]
    simp only [String.append_assoc]
  rw [hentry] at hloc hloc'
  have hsame := FileTree.resolve_join_pair_injective (isName_of_isUnitName hunit hstem)
    (isName_of_isUnitName hother hstem) hname hup hloc hloc'
  exact by_contra fun hne => entryName_ne hne hsame

/-- Whether files are apart depends on the files and on where logs stand. -/
theorem Separated.of_reopened_eq {a b : Archive} (ha : a.Separated) (h : b.reopened = a.reopened) :
    b.Separated := by
  obtain ⟨hdir, hsuffix, hfiles⟩ := reopened_eq_iff.mp h
  unfold Separated entryFile
  rw [hdir, hsuffix, hfiles]
  exact ha

/-- What an operation may do to an archive: logs that it gives are remembered, directories are
created, and at most one log is new. That one is remembered, and it stands in the file of its
unit. -/
structure Adds (a : Archive) (new : Option UnitLog) (b : Archive) : Prop where
  buildDir_eq : b.buildDir = a.buildDir
  suffix_eq : b.suffix = a.suffix
  keepsDirs : a.files.KeepsDirs b.files
  fileLog_of_fileLog : ∀ {unit log}, a.fileLog unit = .ok log →
    (∀ added ∈ new, b.files.resolve (b.entryFile unit) ≠ b.files.resolve (b.entryFile added.unit)) →
    b.fileLog unit = .ok log
  file_of_file : ∀ {loc content}, b.files.node? loc = some (.file content) →
    a.files.node? loc = some (.file content) ∨
      ∃ added ∈ new, b.files.resolve (b.entryFile added.unit) = .ok loc ∧
        content = added.toJson.pretty
  stored_of_known : ∀ {unit log}, b.known.lookup unit = some log →
    a.stored unit = .ok log ∨ ∃ added ∈ new, added.unit = unit
  known_new : ∀ added ∈ new, b.known.lookup added.unit = some added
  fileLog_new : ∀ added ∈ new, b.fileLog added.unit = .ok added

/-- What compiling may do to an archive: if a log is new, all it imports was there before and did
not reach it. -/
structure Advances (a : Archive) (new : Option UnitLog) (b : Archive) :
    Prop extends Adds a new b where
  imports_new : ∀ added ∈ new, ∀ other ∈ added.imports, ∃ log, a.stored other = .ok log
  not_reaches_new : ∀ added ∈ new, ¬ a.graph.Reaches added.imports added.unit

/-- Looking things up and creating directories adds no log. -/
theorem Recalls.adds {a mid : Archive} (h : a.Recalls mid) {files : FileTree}
    {events : List Event} (hdirs : mid.files.AddsDirs files) :
    a.Adds none { mid with files, events } := by
  rw [h.files_eq] at hdirs
  have hentry (unit : String) :
      entryFile { mid with files, events } unit = a.entryFile unit := by
    rw [entryFile, entryFile, h.buildDir_eq, h.suffix_eq]
  refine ⟨h.buildDir_eq, h.suffix_eq, hdirs.keeps.dirs, ?_, ?_, ?_, ?_, ?_⟩
  · intro unit log hfile _
    obtain ⟨hname, hunit, content, hread, hparse⟩ := fileLog_eq_ok_iff.mp hfile
    refine fileLog_eq_ok_iff.mpr ⟨hname, hunit, content, ?_, hparse⟩
    rw [hentry]
    exact hdirs.keeps.read hread
  · exact fun hfile => .inl (hdirs.file_of_file (by simp) hfile)
  · intro unit log hlog
    rw [← h.stored_eq]
    exact .inl (Archive.stored_of_known hlog)
  all_goals rintro _ ⟨⟩

/-- Looking things up and creating directories is what a compilation that stores no log does. -/
theorem Recalls.advances {a mid : Archive} (h : a.Recalls mid) {files : FileTree}
    {events : List Event} (hdirs : mid.files.AddsDirs files) :
    a.Advances none { mid with files, events } := by
  refine ⟨h.adds hdirs, ?_, ?_⟩
  all_goals rintro _ ⟨⟩

/-- Storing a log after looking things up adds that log. -/
theorem Recalls.adds_stores {a mid b : Archive} {log : UnitLog} (h : a.Recalls mid)
    (hstores : mid.Stores log b) : a.Adds (some log) b := by
  refine ⟨hstores.buildDir_eq.trans h.buildDir_eq, hstores.suffix_eq.trans h.suffix_eq,
    h.files_eq ▸ hstores.keepsDirs, ?_, ?_, ?_, ?_, ?_⟩
  · intro unit found hfile hne
    refine hstores.fileLog_of_fileLog ?_ (hne log rfl)
    rwa [fileLog_congr h.buildDir_eq h.suffix_eq h.files_eq]
  · intro loc content hfile
    rcases hstores.file_of_file (by simp) hfile with hbefore | ⟨hloc, hcontent⟩
    · exact .inl (h.files_eq ▸ hbefore)
    · exact .inr ⟨log, rfl, hloc, Node.file.inj hcontent⟩
  · intro unit found hfound
    by_cases hunit : unit = log.unit
    · exact .inr ⟨log, rfl, hunit.symm⟩
    · rw [hstores.known_eq, List.lookup_cons, beq_eq_false_iff_ne.mpr hunit] at hfound
      rw [← h.stored_eq]
      exact .inl (Archive.stored_of_known hfound)
  · rintro _ ⟨⟩
    rw [hstores.known_eq]
    simp
  · rintro _ ⟨⟩
    exact hstores.fileLog_self

/-- Adding the log of a unit. -/
theorem Compiled.advances {a b : Archive} {source : UnitSource} {visits : List String}
    {imported : List UnitLog} {log : UnitLog} (h : Compiled a source visits imported log b) :
    a.Advances (some log) b := by
  obtain ⟨mid, hrecalls, _, hstores⟩ := h.stores
  refine ⟨hrecalls.adds_stores hstores, ?_, ?_⟩
  · rintro _ ⟨⟩ other hother
    exact loads_graph_iff.mp (h.postOrder.loads (h.postOrder.subset (h.imports_eq ▸ hother)))
  · rintro _ ⟨⟩ hreach
    rw [h.unit_eq, h.imports_eq] at hreach
    exact h.not_mem (h.postOrder.mem_iff_reaches.mpr hreach)

/-- All that compiling a unit does to an archive, whether it succeeds or not. -/
theorem advances_compile (keyword : String) (source : UnitSource) (a : Archive) :
    ∃ new, a.Advances new (compile keyword source a).2 := by
  rcases hcompile : compile keyword source a with ⟨e | report, b⟩
  · refine ⟨none, ?_⟩
    have houtcome := outcome_compile keyword source a
    rw [hcompile] at houtcome
    cases houtcome with
    | name _ => exact (Recalls.refl _).advances (.refl _)
    | imports _ hclosure => exact (recalls_closure hclosure).advances (.refl _)
    | itself _ hclosure _ => exact (recalls_closure hclosure).advances (.refl _)
    | log hclosure _ hdirs _ => exact (recalls_closure hclosure).advances hdirs
  · obtain ⟨_, _, _, _, _, _, hcompiled⟩ := compiled_of_compile hcompile
    exact ⟨_, hcompiled.advances⟩

namespace Adds

variable {a b : Archive} {new : Option UnitLog} (h : a.Adds new b)

include h

/-- No operation moves the file of a unit. -/
theorem entryFile_eq (unit : String) : b.entryFile unit = a.entryFile unit := by
  rw [entryFile, entryFile, h.buildDir_eq, h.suffix_eq]

/-- Files that are apart were apart before. -/
theorem separated (hapart : b.Separated) : a.Separated := by
  intro unit other loc hunit hother hloc hloc'
  rw [← h.entryFile_eq] at hloc hloc'
  exact hapart unit other loc hunit hother (h.keepsDirs.resolve hloc) (h.keepsDirs.resolve hloc')

/-- Where files are apart, only the file of the new log changes. -/
theorem fileLog_of_separated (hapart : b.Separated) {unit : String} {log : UnitLog}
    (hne : ∀ added ∈ new, unit ≠ added.unit) (hfile : a.fileLog unit = .ok log) :
    b.fileLog unit = .ok log := by
  refine h.fileLog_of_fileLog hfile fun added hadded heq => hne added hadded ?_
  obtain ⟨hname, _, content, hread, _⟩ := fileLog_eq_ok_iff.mp (h.fileLog_new added hadded)
  obtain ⟨loc, hloc, _⟩ := FileTree.read_eq_ok_iff.mp hread
  exact hapart unit added.unit loc (fileLog_eq_ok_iff.mp hfile).1 hname (heq.trans hloc) hloc

/-- Where files are apart, what is remembered is still what the files hold. -/
theorem coherent (hapart : b.Separated) (hcoherent : a.Coherent) : b.Coherent := by
  intro unit log hlog
  by_cases hnew : ∃ added ∈ new, added.unit = unit
  · obtain ⟨added, hadded, rfl⟩ := hnew
    rw [Option.some.inj (hlog.symm.trans (h.known_new added hadded))]
    exact h.fileLog_new added hadded
  · have hstored := (h.stored_of_known hlog).resolve_right hnew
    refine h.fileLog_of_separated hapart ?_ (hcoherent.fileLog_of_stored hstored)
    exact fun added hadded hunit => hnew ⟨added, hadded, hunit.symm⟩

end Adds

/-- Two archives have the same files and give the same for every unit, whatever they remember. -/
structure Alike (a b : Archive) : Prop where
  reopened_eq : b.reopened = a.reopened
  stored_eq : b.stored = a.stored

/-- An archive that is opened afresh remembers nothing. -/
theorem coherent_reopened (a : Archive) : a.reopened.Coherent := by
  intro unit log hlog
  cases hlog

/-- An archive that is opened on files of which one holds the log of a unit without imports and
entries. -/
def openedOn (suffix : String) (dirs : List Location) (file : Location) : Archive where
  buildDir := "build"
  suffix
  files := {
    nodes := dirs.map (·, .directory) ++ [(file, .file (UnitLog.toJson ⟨"base", [], []⟩).pretty)] }

/-- A coherent archive gives what one that is opened afresh gives. -/
theorem Coherent.alike_reopened {a : Archive} (h : a.Coherent) : a.Alike a.reopened := by
  refine ⟨rfl, ?_⟩
  funext unit
  rw [stored_reopened, stored_eq]
  cases hlog : a.known.lookup unit with
  | none => rfl
  | some log => exact h unit log hlog

section Alike

variable {a b : Archive} (h : a.Alike b)

include h

/-- Archives that give the same for every unit have the same import graph. -/
theorem Alike.graph_eq : b.graph = a.graph := by
  funext unit
  rw [graph, graph, h.stored_eq]

/-- Finishing imports gives the same. -/
theorem Alike.closure_eq (imports : List String) :
    (closure imports b).1 = (closure imports a).1 :=
  closure_congr fun unit _ => congrFun h.graph_eq unit

/-- Replaying a unit gives the same ledger or fails in the same way. -/
theorem Alike.ledgerOf_eq (unit : String) : (ledgerOf unit b).1 = (ledgerOf unit a).1 := by
  rw [(ledgerOf_apply unit a).1, (ledgerOf_apply unit b).1, h.closure_eq, h.stored_eq]

/-- Compiling a unit gives the same report or fails in the same way, and leaves the same files. -/
theorem Alike.compile_eq (keyword : String) (source : UnitSource) :
    (compile keyword source b).1 = (compile keyword source a).1 ∧
    (compile keyword source b).2.reopened = (compile keyword source a).2.reopened := by
  have hprepared : prepared keyword source b = prepared keyword source a :=
    prepared_congr fun unit _ => congrFun h.stored_eq unit
  cases hsession : prepared keyword source a with
  | error e =>
    obtain ⟨houtcome, hrecalls⟩ := compile_of_prepared_error keyword source a hsession
    obtain ⟨houtcome', hrecalls'⟩ :=
      compile_of_prepared_error keyword source b (hprepared.trans hsession)
    rw [houtcome, houtcome', hrecalls.reopened_eq, hrecalls'.reopened_eq, h.reopened_eq]
    exact ⟨rfl, rfl⟩
  | ok s =>
    obtain ⟨houtcome, hfiles⟩ := compile_of_prepared_ok keyword source a hsession
    obtain ⟨houtcome', hfiles'⟩ :=
      compile_of_prepared_ok keyword source b (hprepared.trans hsession)
    obtain ⟨hstored, hstoredFiles⟩ := store_congr s.log h.reopened_eq
    rw [houtcome, houtcome', hfiles, hfiles', hstored, hstoredFiles]
    exact ⟨rfl, rfl⟩

end Alike

/-- Compiles units in order, and gives what each of them comes to with the files that are there
afterwards. Before the next unit the archive is handed on in the given way. -/
def compileEach (handOn : Archive → Archive) (keyword : String) :
    Archive → List UnitSource → List (Except Failure Report × FileTree)
  | _, [] => []
  | a, source :: sources =>
    let result := compile keyword source a
    (result.1, result.2.files) :: compileEach handOn keyword (handOn result.2) sources

/-- Opening a coherent archive afresh for every unit changes nothing. -/
theorem Coherent.compileEach_eq {a : Archive} (h : a.Coherent) (hsuffix : '/' ∉ a.suffix.toList)
    (keyword : String) (sources : List UnitSource) :
    compileEach reopened keyword a.reopened sources = compileEach id keyword a sources := by
  induction sources generalizing a with
  | nil => rfl
  | cons source sources ih =>
    obtain ⟨houtcome, hreopened⟩ := h.alike_reopened.compile_eq keyword source
    have hfiles : (compile keyword source a.reopened).2.files =
        (compile keyword source a).2.files :=
      (congrArg Archive.files hreopened :)
    obtain ⟨new, hadvances⟩ := advances_compile keyword source a
    have hsuffix' : '/' ∉ (compile keyword source a).2.suffix.toList := by
      rwa [hadvances.suffix_eq]
    have hrest := ih (hadvances.coherent (separated_of_no_slash hsuffix') h) hsuffix'
    simp only [compileEach, houtcome, hfiles, hreopened, hrest, id]

/-- Compiling units in one archive, which remembers the logs it has seen, and compiling each of them
in an archive of its own, which has to read every log from its file, give the same reports, the same
failures and the same files after each unit, unless the suffix of the files has a slash in it. -/
theorem compileEach_in_one_or_apart (options : Options) (files : FileTree)
    (sources : List UnitSource) (hsuffix : '/' ∉ options.suffix.toList) :
    compileEach reopened options.keyword (options.archive files) sources =
      compileEach id options.keyword (options.archive files) sources := by
  have hcoherent : (options.archive files).Coherent := coherent_reopened (options.archive files)
  exact hcoherent.compileEach_eq hsuffix options.keyword sources

/-- A unit is compiled again after another one has imported it, and a unit with an import that is
missing fails. -/
theorem compileEach_in_one_or_apart_recompiled :
    let options : Options := {}
    let align (target : String) : Command :=
      .declare "one" (.const "Nat") none [⟨"align_dafny", [.str target]⟩]
    let sources : List UnitSource :=
      [⟨"base", [], [align "One"]⟩, ⟨"top", ["base"], [.dump]⟩, ⟨"base", [], [align "Uno"]⟩,
        ⟨"last", ["top", "none"], []⟩]
    '/' ∉ options.suffix.toList ∧
    ((compileEach id options.keyword (options.archive {}) sources).map fun (outcome, files) =>
      (outcome.toBool, files.nodes.length)) = [(true, 2), (true, 3), (true, 3), (false, 3)] ∧
    compileEach reopened options.keyword (options.archive {}) sources =
      compileEach id options.keyword (options.archive {}) sources := by
  intro options align sources
  have hsuffix : '/' ∉ options.suffix.toList := by decide
  exact ⟨hsuffix, by decide +kernel, compileEach_in_one_or_apart options {} sources hsuffix⟩

end PropExport.Archive
