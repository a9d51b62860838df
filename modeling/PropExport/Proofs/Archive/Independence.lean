import PropExport.Proofs.Archive.Coherence
import PropExport.Proofs.Files.Saving

/-!
# Independent compilations

Compiling a unit reads the logs of what its imports reach and writes the log of the unit. So it
comes to the same wherever those logs are the same, it may be done again, and units that do not
reach each other may be compiled in either order. What depends on more than that is whether a log
can be stored: that is up to the files.
-/

namespace PropExport.Archive

open ImportGraph

/-- What compiling a unit comes to with the files afterwards, given what was prepared. -/
def concluded (dir path name : String) (outcome : Except Failure Session) (tree : FileTree) :
    Except Failure Report × FileTree :=
  match outcome with
  | .error e => (.error e, tree)
  | .ok s =>
    ((tree.save dir path s.log.toJson.pretty).1.map (s.reportAt name),
      (tree.save dir path s.log.toJson.pretty).2)

/-- Storing a log is saving its written form. -/
theorem store_eq_save {log : UnitLog} {a : Archive} (hname : isUnitName log.unit = true) :
    (store log a).1 = (a.files.save a.buildDir (a.entryFile log.unit) log.toJson.pretty).1 ∧
    (store log a).2.files =
      (a.files.save a.buildDir (a.entryFile log.unit) log.toJson.pretty).2 := by
  rw [store_apply, if_pos hname, FileTree.save]
  rcases a.files.createDirs a.buildDir with ⟨e | u, created⟩
  · exact ⟨rfl, rfl⟩
  · dsimp only [FileTree.place]
    cases created.write (a.entryFile log.unit) log.toJson.pretty with
    | error e => exact ⟨rfl, rfl⟩
    | ok written => exact ⟨rfl, rfl⟩

/-- Concluding a compilation twice is concluding it once. -/
theorem concluded_concluded (dir path name : String) (outcome : Except Failure Session)
    (tree : FileTree) :
    Agree (concluded dir path name outcome (concluded dir path name outcome tree).2).1
      (concluded dir path name outcome tree).1 ∧
    (concluded dir path name outcome (concluded dir path name outcome tree).2).2 =
      (concluded dir path name outcome tree).2 := by
  cases outcome with
  | error e => exact ⟨.same _, rfl⟩
  | ok s =>
    obtain ⟨hagree, hfiles⟩ := tree.save_save dir path s.log.toJson.pretty
    exact ⟨hagree.map (s.reportAt name), hfiles⟩

section Compile

variable (keyword : String) (source : UnitSource) (a : Archive)

/-- Compiling is to conclude what was prepared. -/
theorem compile_eq_concluded :
    (compile keyword source a).1 =
      (concluded a.buildDir (a.entryFile source.name) source.name (prepared keyword source a)
        a.files).1 ∧
    (compile keyword source a).2.files =
      (concluded a.buildDir (a.entryFile source.name) source.name (prepared keyword source a)
        a.files).2 := by
  cases hprepared : prepared keyword source a with
  | error e =>
    obtain ⟨houtcome, hrecalls⟩ := compile_of_prepared_error keyword source a hprepared
    exact ⟨houtcome, hrecalls.files_eq⟩
  | ok s =>
    obtain ⟨houtcome, hreopened⟩ := compile_of_prepared_ok keyword source a hprepared
    obtain ⟨hname, hunit⟩ := isUnitName_of_prepared keyword source a hprepared
    obtain ⟨hstore, hfiles⟩ := store_eq_save (a := a) (hunit ▸ hname)
    rw [houtcome, (reopened_eq_iff.mp hreopened).2.2, hstore, hfiles, hunit]
    exact ⟨rfl, rfl⟩

/-- Compiling leaves the archive where it is. -/
theorem entryFile_compile :
    (compile keyword source a).2.buildDir = a.buildDir ∧
    (compile keyword source a).2.entryFile = a.entryFile := by
  obtain ⟨_, hadvances⟩ := advances_compile keyword source a
  exact ⟨hadvances.buildDir_eq, funext hadvances.entryFile_eq⟩

/-- Compiling a unit in an archive in which another was compiled, if it is still prepared in the
same way. -/
theorem compile_compile_eq_concluded (keyword' : String) (other : UnitSource)
    (h : prepared keyword' other (compile keyword source a).2 = prepared keyword' other a) :
    let files := (concluded a.buildDir (a.entryFile source.name) source.name
      (prepared keyword source a) a.files).2
    (compile keyword' other (compile keyword source a).2).1 =
      (concluded a.buildDir (a.entryFile other.name) other.name (prepared keyword' other a)
        files).1 ∧
    (compile keyword' other (compile keyword source a).2).2.files =
      (concluded a.buildDir (a.entryFile other.name) other.name (prepared keyword' other a)
        files).2 := by
  obtain ⟨houtcome, hfiles⟩ := compile_eq_concluded keyword' other (compile keyword source a).2
  obtain ⟨hdir, hentry⟩ := entryFile_compile keyword source a
  rw [hdir, hentry, h, (compile_eq_concluded keyword source a).2] at houtcome hfiles
  exact ⟨houtcome, hfiles⟩

/-- Compiling a unit twice is compiling it once. -/
theorem compile_twice :
    Agree (compile keyword source (compile keyword source a).2).1 (compile keyword source a).1 ∧
    (compile keyword source (compile keyword source a).2).2.files =
      (compile keyword source a).2.files := by
  obtain ⟨houtcome, hfiles⟩ := compile_eq_concluded keyword source a
  obtain ⟨houtcome', hfiles'⟩ := compile_compile_eq_concluded keyword source a keyword source
    (prepared_compile_self keyword source a)
  rw [houtcome, hfiles, houtcome', hfiles']
  exact concluded_concluded _ _ _ _ _

end Compile

/-- The archive with its build directory created, as far as it can be. -/
def withBuildDir (a : Archive) : Archive :=
  { a with files := (a.files.createDirs a.buildDir).2 }

/-- Where the build directory is there, nothing is created. -/
theorem withBuildDir_of_hasDir {a : Archive} (h : a.files.HasDir a.buildDir) :
    a.withBuildDir = a := by
  rw [withBuildDir, FileTree.createDirs_of_hasDir h]

/-- What a file decodes to depends on what its path leads to, if it leads to anything. -/
theorem fileLog_of_stat_eq {a b : Archive} {unit : String} (hentry : b.entryFile = a.entryFile)
    (h : isUnitName unit = true → (b.files.stat (a.entryFile unit)).toOption =
      (a.files.stat (a.entryFile unit)).toOption) :
    b.fileLog unit = a.fileLog unit := by
  rw [fileLog, fileLog, readLog_eq, readLog_eq, hentry]
  by_cases hname : isUnitName unit = true
  · have hsame := h hname
    unfold FileTree.pathExists FileTree.read
    cases hstat : a.files.stat (a.entryFile unit) with
    | ok node =>
      rw [hstat] at hsame
      rw [eq_ok_of_toOption_eq_some hsame]
    | error e =>
      rw [hstat] at hsame
      cases hstat' : b.files.stat (a.entryFile unit) with
      | ok node =>
        rw [hstat'] at hsame
        cases hsame
      | error e' => rfl
  · simp only [if_neg hname]

/-- The path to the file of a unit leads somewhere. -/
def Leads (a : Archive) (unit : String) : Prop :=
  ∃ loc, a.files.resolve (a.entryFile unit) = .ok loc

/-- The logs of two units can be written without regard to each other: their files are names in one
directory, or the paths to them lead to different locations. -/
def WritesApart (a : Archive) (unit other : String) : Prop :=
  '/' ∉ a.suffix.toList ∨ a.Separated ∧ a.Leads unit ∧ a.Leads other

section WritesApart

variable {a : Archive} {unit other : String}

/-- Writing apart is mutual. -/
theorem WritesApart.symm (h : a.WritesApart unit other) : a.WritesApart other unit :=
  h.imp_right fun ⟨hapart, hunit, hother⟩ => ⟨hapart, hother, hunit⟩

/-- Where two logs can be written without regard to each other, the files of all units are apart. -/
theorem WritesApart.separated (h : a.WritesApart unit other) : a.Separated :=
  h.elim separated_of_no_slash And.left

/-- Writing the log of one of the units does not change where that of the other is written. -/
theorem WritesApart.unaffected (h : a.WritesApart unit other) (hunit : isUnitName unit = true)
    (hother : isUnitName other = true) (hne : other ≠ unit) :
    a.files.Unaffected (a.entryFile unit) (a.entryFile other) := by
  rcases h with hsuffix | ⟨hapart, ⟨loc, hloc⟩, there, hthere⟩
  · exact FileTree.unaffected_join (isName_of_isUnitName hunit hsuffix)
      (isName_of_isUnitName hother hsuffix) (entryName_ne hne) a.files
  · refine FileTree.unaffected_of_resolve hloc hthere ?_
    rintro rfl
    exact hne (hapart other unit there hother hunit hthere hloc)

end WritesApart

/-- Compiling a unit changes what is given for others only by creating the build directory, where
the files of different units are apart once it is there. -/
theorem stored_compile_of_ne {keyword : String} {source : UnitSource} {a : Archive} {unit : String}
    (hapart : a.withBuildDir.Separated) (hne : unit ≠ source.name)
    (hdirs : a.withBuildDir.stored unit = a.stored unit) :
    (compile keyword source a).2.stored unit = a.stored unit := by
  obtain ⟨mid, hrecalls, _, hknown⟩ := exists_recalls_known_compile keyword source a
  cases hmid : mid.known.lookup unit with
  | some log =>
    rw [stored_of_known ((hknown unit hne).trans hmid), ← hrecalls.stored_eq, stored_of_known hmid]
  | none =>
    have ha : a.known.lookup unit = none := by
      cases hlog : a.known.lookup unit with
      | none => rfl
      | some log => exact absurd (hrecalls.known_mono hlog) (by simp [hmid])
    have hcreated : a.withBuildDir.fileLog unit = a.fileLog unit := by
      have hlookup : a.withBuildDir.known.lookup unit = none := ha
      rwa [stored_eq, stored_eq, hlookup, ha] at hdirs
    rw [stored_eq, stored_eq, (hknown unit hne).trans hmid, ha]
    dsimp only
    cases hprepared : prepared keyword source a with
    | error e =>
      obtain ⟨_, hsame⟩ := compile_of_prepared_error keyword source a hprepared
      rw [fileLog_of_reopened_eq hsame.reopened_eq]
    | ok s =>
      obtain ⟨_, hfiles⟩ := compile_eq_concluded keyword source a
      obtain ⟨hname, _⟩ := isUnitName_of_prepared keyword source a hprepared
      rw [hprepared] at hfiles
      rw [← hcreated]
      refine fileLog_of_stat_eq (entryFile_compile keyword source a).2 fun hunit => ?_
      rw [hfiles]
      refine FileTree.stat_save (fun loc hloc hloc' => ?_) s.log.toJson.pretty
      exact hne (hapart unit source.name loc hunit hname hloc' hloc)

/-- A unit is prepared in the same way after another was compiled that it does not reach. -/
theorem prepared_compile_of_not_reaches (keyword keyword' : String) {source other : UnitSource}
    {a : Archive} (hapart : a.withBuildDir.Separated)
    (hreach : ¬ a.graph.Reaches other.imports source.name)
    (hdirs : ∀ unit, a.graph.Reaches other.imports unit →
      a.withBuildDir.stored unit = a.stored unit) :
    prepared keyword' other (compile keyword source a).2 = prepared keyword' other a := by
  refine prepared_congr fun unit hunit => stored_compile_of_ne hapart ?_ (hdirs unit hunit)
  rintro rfl
  exact hreach hunit

/-- Compilations may be concluded in either order where neither path affects the other. -/
theorem concluded_comm {dir path path' name name' : String}
    {outcome outcome' : Except Failure Session} {tree : FileTree}
    (h : ∀ s s', outcome = .ok s → outcome' = .ok s' →
      (tree.createDirs dir).2.Unaffected path path' ∧
      (tree.createDirs dir).2.Unaffected path' path) :
    let first := concluded dir path name outcome
    let second := concluded dir path' name' outcome'
    Agree (second (first tree).2).1 (second tree).1 ∧
    ∀ loc, (second (first tree).2).2.node? loc = (first (second tree).2).2.node? loc := by
  intro first second
  cases outcome with
  | error e => exact ⟨.same _, fun _ => rfl⟩
  | ok s =>
    cases outcome' with
    | error e' => exact ⟨.same _, fun _ => rfl⟩
    | ok s' =>
      obtain ⟨hpath, hpath'⟩ := h s s' rfl rfl
      obtain ⟨hagree, hnodes⟩ :=
        FileTree.save_comm hpath hpath' s.log.toJson.pretty s'.log.toJson.pretty
      exact ⟨hagree.map (s'.reportAt name'), hnodes⟩

/-- Units that do not reach each other may be compiled in either order. -/
theorem compile_comm (keyword keyword' : String) {source other : UnitSource} {a : Archive}
    (hapart : a.withBuildDir.WritesApart source.name other.name) (hne : other.name ≠ source.name)
    (hother : ¬ a.graph.Reaches other.imports source.name)
    (hsource : ¬ a.graph.Reaches source.imports other.name)
    (hdirs : ∀ unit, a.graph.Reaches source.imports unit ∨ a.graph.Reaches other.imports unit →
      a.withBuildDir.stored unit = a.stored unit) :
    Agree (compile keyword' other (compile keyword source a).2).1 (compile keyword' other a).1 ∧
    ∀ loc, (compile keyword' other (compile keyword source a).2).2.files.node? loc =
      (compile keyword source (compile keyword' other a).2).2.files.node? loc := by
  have hkept := prepared_compile_of_not_reaches keyword keyword' hapart.separated hother
    fun unit hunit => hdirs unit (.inr hunit)
  have hkept' := prepared_compile_of_not_reaches keyword' keyword hapart.separated hsource
    fun unit hunit => hdirs unit (.inl hunit)
  obtain ⟨houtcome, hfiles⟩ := compile_compile_eq_concluded keyword source a keyword' other hkept
  obtain ⟨_, hfiles'⟩ := compile_compile_eq_concluded keyword' other a keyword source hkept'
  rw [houtcome, hfiles, hfiles', (compile_eq_concluded keyword' other a).1]
  refine concluded_comm fun s s' hprepared hprepared' => ?_
  have hname := (isUnitName_of_prepared keyword source a hprepared).1
  have hname' := (isUnitName_of_prepared keyword' other a hprepared').1
  exact ⟨hapart.unaffected hname hname' hne, hapart.symm.unaffected hname' hname hne.symm⟩

section Frame

variable {keyword : String} {source : UnitSource} {a : Archive}

/-- A failure that is not one of storing a log is one of preparing the unit. -/
theorem compile_eq_error_iff {e : Failure} (h : e.isStoring = false) :
    (compile keyword source a).1 = .error e ↔ prepared keyword source a = .error e :=
  ⟨fun hcompile => prepared_of_compile_error keyword source a hcompile h,
    fun hprepared => (compile_of_prepared_error keyword source a hprepared).1⟩

/-- A compilation that succeeds reports on the session that was prepared and stores its log. -/
theorem exists_prepared_of_compile {report : Report}
    (h : (compile keyword source a).1 = .ok report) :
    ∃ s, prepared keyword source a = .ok s ∧
      report = s.reportAt source.name (a.entryFile source.name) ∧
      (compile keyword source a).2.fileLog source.name = .ok s.log := by
  cases hprepared : prepared keyword source a with
  | error e =>
    rw [(compile_of_prepared_error keyword source a hprepared).1] at h
    cases h
  | ok s =>
    obtain ⟨hname, hunit⟩ := isUnitName_of_prepared keyword source a hprepared
    obtain ⟨houtcome, hreopened⟩ := compile_of_prepared_ok keyword source a hprepared
    rw [houtcome] at h
    obtain ⟨path, hpath, rfl⟩ := exists_of_map_eq_ok h
    have hstores : a.Stores s.log (store s.log a).2 := stores_of_store (Prod.ext hpath rfl)
    rw [(store_eq_save (hunit ▸ hname)).1] at hpath
    refine ⟨s, rfl, ?_, ?_⟩
    · rw [FileTree.eq_of_save_eq_ok hpath, hunit]
    · rw [fileLog_of_reopened_eq hreopened, ← hunit]
      exact hstores.fileLog_self

/-- Where a unit is prepared in the same way and stored, it is reported on in the same way and has
the same log. -/
theorem report_eq_of_prepared_eq {b : Archive} {report report' : Report}
    (hprepared : prepared keyword source b = prepared keyword source a)
    (hentry : b.entryFile source.name = a.entryFile source.name)
    (h : (compile keyword source a).1 = .ok report)
    (h' : (compile keyword source b).1 = .ok report') :
    report' = report ∧
    (compile keyword source b).2.fileLog source.name =
      (compile keyword source a).2.fileLog source.name := by
  obtain ⟨s, hs, rfl, hlog⟩ := exists_prepared_of_compile h
  obtain ⟨s', hs', rfl, hlog'⟩ := exists_prepared_of_compile h'
  rw [hprepared, hs] at hs'
  cases hs'
  rw [hlog, hlog', hentry]
  exact ⟨rfl, rfl⟩

/-- Where a unit is prepared in the same way on the same files, compiling it is the same. -/
theorem compile_eq_of_prepared_eq {b : Archive}
    (hprepared : prepared keyword source b = prepared keyword source a)
    (hdir : b.buildDir = a.buildDir) (hentry : b.entryFile source.name = a.entryFile source.name)
    (hfiles : b.files = a.files) :
    (compile keyword source b).1 = (compile keyword source a).1 ∧
    (compile keyword source b).2.files = (compile keyword source a).2.files := by
  obtain ⟨houtcome, htree⟩ := compile_eq_concluded keyword source a
  obtain ⟨houtcome', htree'⟩ := compile_eq_concluded keyword source b
  rw [houtcome, htree, houtcome', htree', hdir, hentry, hprepared, hfiles]
  exact ⟨rfl, rfl⟩

/-- Compiling a unit does to the files what storing some log of the unit does, or creating
directories. -/
theorem adds_reopened_compile (keyword : String) (source : UnitSource) (a : Archive) :
    ∃ c, c.reopened = (compile keyword source a).2.reopened ∧
      (a.files.AddsDirs c.files ∧ a.Adds none c ∨
        ∃ log, log.unit = source.name ∧ a.Stores log c) := by
  cases hprepared : prepared keyword source a with
  | error e =>
    obtain ⟨_, hrecalls⟩ := compile_of_prepared_error keyword source a hprepared
    exact ⟨_, rfl, .inl ⟨hrecalls.files_eq ▸ .refl _, hrecalls.adds (.refl _)⟩⟩
  | ok s =>
    obtain ⟨_, hreopened⟩ := compile_of_prepared_ok keyword source a hprepared
    obtain ⟨_, hunit⟩ := isUnitName_of_prepared keyword source a hprepared
    refine ⟨(store s.log a).2, hreopened.symm, ?_⟩
    rcases store_cases s.log a with ⟨_, _, hstore, hstores⟩ | ⟨_, files, hstore, hdirs, _⟩
    · rw [hstore]
      exact .inr ⟨s.log, hunit, hstores⟩
    · rw [hstore]
      exact .inl ⟨hdirs, (Recalls.refl a).adds hdirs⟩

/-- Compiling a unit changes no file but the one that the path of its log leads to. -/
theorem file_compile_iff {loc : Location} {node : Node} (hnode : node ≠ .directory)
    (hne : (compile keyword source a).2.files.resolve
      ((compile keyword source a).2.entryFile source.name) ≠ .ok loc) :
    (compile keyword source a).2.files.node? loc = some node ↔
      a.files.node? loc = some node := by
  obtain ⟨c, hreopened, hcases⟩ := adds_reopened_compile keyword source a
  obtain ⟨hdir, hsuffix, hfiles⟩ := reopened_eq_iff.mp hreopened
  rw [entryFile, ← hdir, ← hsuffix, ← hfiles] at hne
  rw [← hfiles]
  rcases hcases with ⟨hdirs, _⟩ | ⟨log, hunit, hstores⟩
  · exact ⟨hdirs.file_of_file hnode, hdirs.keeps loc _⟩
  · rw [← hunit] at hne
    refine ⟨fun hfile => ?_, fun hfile => hstores.node_of_node hfile hne⟩
    exact (hstores.file_of_file hnode hfile).resolve_right fun hnew => hne hnew.1

/-- Where the files of different units are apart, compiling a unit changes no log of another. -/
theorem fileLog_compile_of_ne {unit : String} {log : UnitLog}
    (hapart : (compile keyword source a).2.Separated) (hne : unit ≠ source.name)
    (hlog : a.fileLog unit = .ok log) : (compile keyword source a).2.fileLog unit = .ok log := by
  obtain ⟨c, hreopened, hcases⟩ := adds_reopened_compile keyword source a
  have hapart' : c.Separated := hapart.of_reopened_eq hreopened
  rw [← fileLog_of_reopened_eq hreopened]
  rcases hcases with ⟨_, hadds⟩ | ⟨added, hunit, hstores⟩
  · exact hadds.fileLog_of_separated hapart' (by simp) hlog
  · refine ((Recalls.refl a).adds_stores hstores).fileLog_of_separated hapart' ?_ hlog
    rintro _ ⟨⟩
    rwa [hunit]

end Frame

/-- Compiling a unit reads the logs of what its imports reach and writes the log of the unit. In
another archive with the same build directory and suffix that gives the same for all that the
imports reach, it fails in the same way before anything is stored; where the log is stored in both,
it is the same log with the same report; and on the same files everything is the same. No file
changes but the one that the path of the log leads to, so no log of another unit does where the
files of different units are apart. Compiling a unit twice is compiling it once. Units of which
neither reaches the other may be compiled in either order, provided that the suffix has no slash in
it, or that the files of different units are apart and the paths to those of the two units lead
somewhere once the build directory is there; and that the build directory is there or creating it
makes no difference to what their imports reach. -/
theorem compile_independence (keyword : String) (source : UnitSource) (a : Archive) :
    (∀ b : Archive, b.buildDir = a.buildDir → b.suffix = a.suffix →
      (∀ unit, a.graph.Reaches source.imports unit → b.stored unit = a.stored unit) →
      (∀ e, e.isStoring = false →
        ((compile keyword source b).1 = .error e ↔ (compile keyword source a).1 = .error e)) ∧
      (∀ report report', (compile keyword source a).1 = .ok report →
        (compile keyword source b).1 = .ok report' → report' = report ∧
        (compile keyword source b).2.fileLog source.name =
          (compile keyword source a).2.fileLog source.name) ∧
      (b.files = a.files → (compile keyword source b).1 = (compile keyword source a).1 ∧
        (compile keyword source b).2.files = (compile keyword source a).2.files)) ∧
    (∀ b, b = (compile keyword source a).2 →
      (∀ loc node, node ≠ .directory → b.files.resolve (b.entryFile source.name) ≠ .ok loc →
        (b.files.node? loc = some node ↔ a.files.node? loc = some node)) ∧
      (b.Separated ∨ '/' ∉ a.suffix.toList → ∀ unit log, unit ≠ source.name →
        a.fileLog unit = .ok log → b.fileLog unit = .ok log)) ∧
    (Agree (compile keyword source (compile keyword source a).2).1 (compile keyword source a).1 ∧
      (compile keyword source (compile keyword source a).2).2.files =
        (compile keyword source a).2.files) ∧
    ∀ (keyword' : String) (other : UnitSource), other.name ≠ source.name →
      ¬ a.graph.Reaches other.imports source.name →
      ¬ a.graph.Reaches source.imports other.name →
      ('/' ∉ a.suffix.toList ∨ a.withBuildDir.Separated ∧
        a.withBuildDir.Leads source.name ∧ a.withBuildDir.Leads other.name) →
      (a.files.HasDir a.buildDir ∨
        ∀ unit, a.graph.Reaches source.imports unit ∨ a.graph.Reaches other.imports unit →
          a.withBuildDir.stored unit = a.stored unit) →
      Agree (compile keyword source (compile keyword' other a).2).1 (compile keyword source a).1 ∧
      Agree (compile keyword' other (compile keyword source a).2).1 (compile keyword' other a).1 ∧
      ∀ loc, (compile keyword' other (compile keyword source a).2).2.files.node? loc =
        (compile keyword source (compile keyword' other a).2).2.files.node? loc := by
  refine ⟨?_, ?_, compile_twice keyword source a, ?_⟩
  · intro b hdir hsuffix hstored
    have hprepared : prepared keyword source b = prepared keyword source a := prepared_congr hstored
    have hentry : b.entryFile source.name = a.entryFile source.name := by
      rw [entryFile, entryFile, hdir, hsuffix]
    refine ⟨fun e he => ?_, fun _ _ => report_eq_of_prepared_eq hprepared hentry,
      compile_eq_of_prepared_eq hprepared hdir hentry⟩
    rw [compile_eq_error_iff he, compile_eq_error_iff he, hprepared]
  · rintro b rfl
    refine ⟨fun loc node hnode hne => file_compile_iff hnode hne,
      fun hapart unit log hne hlog => ?_⟩
    refine fileLog_compile_of_ne ?_ hne hlog
    rcases hapart with hapart | hsuffix
    · exact hapart
    · obtain ⟨_, hadvances⟩ := advances_compile keyword source a
      exact separated_of_no_slash (hadvances.suffix_eq ▸ hsuffix)
  · intro keyword' other hne hother hsource hready hmade
    have hapart : a.withBuildDir.WritesApart source.name other.name := hready
    have hdirs (unit : String)
        (hunit : a.graph.Reaches source.imports unit ∨ a.graph.Reaches other.imports unit) :
        a.withBuildDir.stored unit = a.stored unit := by
      rcases hmade with hhas | hsame
      · rw [withBuildDir_of_hasDir hhas]
      · exact hsame unit hunit
    obtain ⟨hagree, hnodes⟩ := compile_comm keyword keyword' hapart hne hother hsource hdirs
    obtain ⟨hagree', _⟩ := compile_comm keyword' keyword hapart.symm (Ne.symm hne) hsource hother
      fun unit hunit => hdirs unit hunit.symm
    exact ⟨hagree', hagree, hnodes⟩

/-- A unit whose log lists no imports reaches itself only. -/
theorem eq_of_reaches_of_imports_nil {a : Archive} {name unit : String} {log : UnitLog}
    (hlog : a.stored name = .ok log) (himports : log.imports = [])
    (hreach : a.graph.Reaches [name] unit) : unit = name := by
  obtain ⟨start, hstart, hpath⟩ := hreach
  obtain rfl : start = name := by simpa using hstart
  rcases hpath.cases_head with hsame | ⟨next, hnext, _⟩
  · exact hsame.symm
  · obtain ⟨found, hfound, hother⟩ := exists_stored_of_imports hnext
    cases hlog.symm.trans hfound
    rw [himports] at hother
    cases hother

/-- Two units that import the same unit, in an archive whose suffix has no slash in it and in one
whose suffix leads into a directory of each unit's own. -/
theorem compile_independence_beside :
    let beside : UnitSource := ⟨"beside", ["base"], [.dump]⟩
    let plain := openedOn "log" [["build"]] ["build", "base.log"]
    let nested := openedOn "x/log"
      [["build"], ["build", "base.x"], ["build", "top.x"], ["build", "beside.x"]]
      ["build", "base.x", "log"]
    ∀ a ∈ [plain, nested],
      let b := { a with files := a.files.put ["other"] .directory }
      let after := (compile "axiom" dependent a).2
      (∀ unit, a.graph.Reaches dependent.imports unit → b.stored unit = a.stored unit) ∧
      (∃ report, (compile "axiom" dependent a).1 = .ok report ∧
        (compile "axiom" dependent b).1 = .ok report) ∧
      after.fileLog "base" = .ok ⟨"base", [], []⟩ ∧
      (compile "axiom" dependent after).2.files = after.files ∧
      (a.files.HasDir a.buildDir ∧
        ('/' ∉ a.suffix.toList ∨ a.withBuildDir.Separated ∧
          a.withBuildDir.Leads dependent.name ∧ a.withBuildDir.Leads beside.name) ∧
        ¬ a.graph.Reaches beside.imports dependent.name ∧
        ¬ a.graph.Reaches dependent.imports beside.name) ∧
      Agree (compile "axiom" beside after).1 (compile "axiom" beside a).1 ∧
      ∀ loc, (compile "axiom" beside after).2.files.node? loc =
        (compile "axiom" dependent (compile "axiom" beside a).2).2.files.node? loc := by
  intro beside plain nested a ha b after
  have hcases : a = plain ∨ a = nested := by simpa using ha
  have hbase : a.stored "base" = .ok ⟨"base", [], []⟩ := by
    rcases hcases with rfl | rfl <;> decide +kernel
  have hbase' : b.stored "base" = .ok ⟨"base", [], []⟩ := by
    rcases hcases with rfl | rfl <;> decide +kernel
  have hcompiles : (compile "axiom" dependent a).1.toBool = true := by
    rcases hcases with rfl | rfl <;> decide +kernel
  have hcompiles' : (compile "axiom" dependent b).1.toBool = true := by
    rcases hcases with rfl | rfl <;> decide +kernel
  have hhas : a.files.HasDir a.buildDir := by
    rcases hcases with rfl | rfl <;> exact .inr (by decide +kernel)
  have hcoherent : a.Coherent := by
    rcases hcases with rfl | rfl
    · exact coherent_reopened plain
    · exact coherent_reopened nested
  have hname : Path.IsName "log" := ⟨by decide, by decide, by decide⟩
  have hfile : a.fileLog "base" = .ok ⟨"base", [], []⟩ := hcoherent.fileLog_of_stored hbase
  have hkept : after.Separated ∨ '/' ∉ a.suffix.toList := by
    rcases hcases with rfl | rfl
    · exact .inr (by decide)
    · have hsuffix : after.suffix = "x" ++ "/" ++ "log" := by decide +kernel
      exact .inl (separated_of_suffix_pair (by decide) hname (by decide) hsuffix)
  have hapart : '/' ∉ a.suffix.toList ∨ a.withBuildDir.Separated ∧
      a.withBuildDir.Leads dependent.name ∧ a.withBuildDir.Leads beside.name := by
    rcases hcases with rfl | rfl
    · exact .inl (by decide)
    · have hsuffix : nested.withBuildDir.suffix = "x" ++ "/" ++ "log" := by decide +kernel
      have htop : nested.withBuildDir.files.resolve (nested.withBuildDir.entryFile "top") =
        .ok ["build", "top.x", "log"] := by decide +kernel
      have hbeside : nested.withBuildDir.files.resolve
        (nested.withBuildDir.entryFile "beside") = .ok ["build", "beside.x", "log"] := by
        decide +kernel
      exact .inr ⟨separated_of_suffix_pair (by decide) hname (by decide) hsuffix,
        ⟨_, htop⟩, _, hbeside⟩
  have hplace : b.buildDir = a.buildDir ∧ b.suffix = a.suffix := ⟨rfl, rfl⟩
  -- the rest is about archives of which no more than this is known
  clear_value b
  clear hcases ha hcoherent
  have hleaf (unit : String) (hreach : a.graph.Reaches ["base"] unit) : unit = "base" :=
    eq_of_reaches_of_imports_nil hbase rfl hreach
  have hsame (unit : String) (hreach : a.graph.Reaches dependent.imports unit) :
      b.stored unit = a.stored unit := by
    rw [hleaf unit hreach, hbase, hbase']
  have hbeside : ¬ a.graph.Reaches beside.imports dependent.name :=
    fun hreach => absurd (hleaf _ hreach) (by decide)
  have hdependent : ¬ a.graph.Reaches dependent.imports beside.name :=
    fun hreach => absurd (hleaf _ hreach) (by decide)
  obtain ⟨hreads, hwrites, ⟨_, htwice⟩, hcomm⟩ := compile_independence "axiom" dependent a
  obtain ⟨_, hreports, _⟩ := hreads b hplace.1 hplace.2 hsame
  obtain ⟨_, hothers⟩ := hwrites after rfl
  obtain ⟨_, hagree, hnodes⟩ :=
    hcomm "axiom" beside (by decide) hbeside hdependent hapart (.inl hhas)
  refine ⟨hsame, ?_, ?_, htwice, ⟨hhas, hapart, hbeside, hdependent⟩, hagree, hnodes⟩
  · obtain ⟨report, hreport⟩ := exists_ok_of_toBool hcompiles
    obtain ⟨report', hreport'⟩ := exists_ok_of_toBool hcompiles'
    obtain ⟨rfl, _⟩ := hreports report report' hreport hreport'
    exact ⟨report', hreport, hreport'⟩
  · exact hothers hkept "base" _ (by decide) hfile

/-- What compiling a unit depends on beyond the logs of what it imports: whether there is a file in
place of the build directory, whether all units have the same file, and whether the build directory
is reached through one that is yet to be created. Where the build directory cannot be created, a
second attempt may fail for another reason, since the first one may have created a directory on the
way to it. -/
theorem compile_dependence :
    let leaf (name : String) : UnitSource := ⟨name, [], []⟩
    let empty := Options.archive {} {}
    let blocked := Options.archive {} { nodes := [(["build"], .file "")] }
    let shared := openedOn "x/../log" [["build"], ["build", "base.x"], ["build", "top.x"]]
      ["build", "log"]
    let roundabout := { openedOn "log" [["build"]] ["build", "base.log"] with
      buildDir := "build/sub/.." }
    let stuck := { Options.archive {} { nodes := [(["f"], .file "")] } with buildDir := "a/../f/x" }
    ((compile "axiom" (leaf "top") empty).1.map (fun _ => ()) = .ok () ∧
      (compile "axiom" (leaf "top") blocked).1.map (fun _ => ()) =
        .error (.createDir "build" .alreadyExists)) ∧
    (shared.fileLog "base" = .ok ⟨"base", [], []⟩ ∧
      (compile "axiom" (leaf "top") shared).2.fileLog "base" =
        .error (.foreignLog "build/base.x/../log" "top" "base")) ∧
    ((compile "axiom" dependent roundabout).1.map (fun _ => ()) =
        .error (.notCompiled "base" "build/sub/../base.log") ∧
      (compile "axiom" dependent (compile "axiom" (leaf "beside") roundabout).2).1.map
        (fun _ => ()) = .ok ()) ∧
    ((compile "axiom" (leaf "top") stuck).1.map (fun _ => ()) =
        .error (.createDir "a/../f/x" .alreadyExists) ∧
      (compile "axiom" (leaf "top") (compile "axiom" (leaf "top") stuck).2).1.map (fun _ => ()) =
        .error (.createDir "a/../f/x" .notDirectory)) := by
  decide +kernel

end PropExport.Archive
