import PropExport.Proofs.Archive.Closure
import PropExport.Proofs.Ledger.Wire
import PropExport.Proofs.Session.Record

/-!
# Storing and compiling

What an archive holds after a log was stored and after a unit was compiled.
-/

namespace PropExport.Archive

/-- A log was stored: directories were created as needed, the log was written to its file, and it is
remembered in front of all others. -/
structure Stores (a : Archive) (log : UnitLog) (b : Archive) : Prop where
  isUnitName : isUnitName log.unit = true
  buildDir_eq : b.buildDir = a.buildDir
  suffix_eq : b.suffix = a.suffix
  known_eq : b.known = (log.unit, log) :: a.known
  files : ∃ files, a.files.AddsDirs files ∧
    files.write (a.entryFile log.unit) log.toJson.pretty = .ok b.files

private theorem createDirs_apply (path : String) (a : Archive) :
    createDirs path a =
      ((a.files.createDirs path).1.mapError (.createDir path),
        { a with files := (a.files.createDirs path).2 }) := by
  unfold createDirs
  rw [get_bind]
  rcases a.files.createDirs path with ⟨_ | _, files⟩ <;> rfl

/-- Writing a file changes the files only if it succeeds. -/
theorem write_apply (path content : String) (a : Archive) :
    write path content a =
      match a.files.write path content with
      | .ok files => (.ok (), { a with files })
      | .error e => (.error (.write path e), a) := by
  unfold write
  rw [get_bind]
  cases a.files.write path content <;> rfl

/-- Storing a log creates the build directory and writes the log to its file; both may fail. -/
theorem store_apply (log : UnitLog) (a : Archive) :
    store log a =
      if isUnitName log.unit then
        match a.files.createDirs a.buildDir with
        | (.error e, files) => (.error (.createDir a.buildDir e), { a with files })
        | (.ok (), files) =>
          match files.write (a.entryFile log.unit) log.toJson.pretty with
          | .error e => (.error (.write (a.entryFile log.unit) e), { a with files })
          | .ok files =>
            (.ok (a.entryFile log.unit),
              { a with
                files
                known := (log.unit, log) :: a.known
                events := a.events ++
                  [.stored log.unit log.entries.length (a.entryFile log.unit)] })
      else (.error (.invalidUnitName log.unit), a) := by
  have hpath := entryPath_apply log.unit a
  have hdirs := createDirs_apply a.buildDir a
  unfold store
  by_cases hname : Archive.isUnitName log.unit = true
  · rw [if_pos hname] at hpath ⊢
    rw [bind_of_ok hpath, get_bind]
    rcases hcreate : a.files.createDirs a.buildDir with ⟨e | u, files⟩
    · rw [hcreate] at hdirs
      exact bind_of_error hdirs
    · rw [hcreate] at hdirs
      have hwrite := write_apply (a.entryFile log.unit) log.toJson.pretty { a with files }
      rw [bind_of_ok hdirs]
      dsimp only
      cases hfile : files.write (a.entryFile log.unit) log.toJson.pretty with
      | error e =>
        rw [hfile] at hwrite
        exact bind_of_error hwrite
      | ok files' =>
        rw [hfile] at hwrite
        exact bind_of_ok hwrite
  · rw [if_neg hname] at hpath ⊢
    exact bind_of_error hpath

/-- A log is stored, or it leaves nothing behind but directories. -/
theorem store_cases (log : UnitLog) (a : Archive) :
    (∃ path b, store log a = (.ok path, b) ∧ a.Stores log b) ∨
    ∃ e files, store log a = (.error e, { a with files }) ∧ a.files.AddsDirs files ∧
      ∀ chain, e ≠ .importCycle chain := by
  have hdirs := a.files.addsDirs_createDirs a.buildDir
  rw [store_apply]
  by_cases hname : Archive.isUnitName log.unit = true
  · rw [if_pos hname]
    rcases hcreate : a.files.createDirs a.buildDir with ⟨e | u, files⟩
    · rw [hcreate] at hdirs
      exact .inr ⟨_, files, rfl, hdirs, by simp⟩
    · rw [hcreate] at hdirs
      dsimp only
      cases hfile : files.write (a.entryFile log.unit) log.toJson.pretty with
      | error e => exact .inr ⟨_, files, rfl, hdirs, by simp⟩
      | ok files' => exact .inl ⟨_, _, rfl, hname, rfl, rfl, rfl, files, hdirs, hfile⟩
  · rw [if_neg hname]
    exact .inr ⟨_, a.files, rfl, .refl a.files, by simp⟩

/-- Storing a log that succeeds stores it. -/
theorem stores_of_store {log : UnitLog} {a b : Archive} {path : String}
    (h : store log a = (.ok path, b)) : a.Stores log b := by
  rcases store_cases log a with ⟨_, _, hstore, hstores⟩ | ⟨_, _, hstore, _⟩
  · rw [h] at hstore
    cases hstore
    exact hstores
  · rw [h] at hstore
    cases hstore

namespace Stores

variable {a b : Archive} {log : UnitLog} (h : a.Stores log b)

include h

/-- Storing a log moves no file of a unit. -/
theorem entryFile_eq (unit : String) : b.entryFile unit = a.entryFile unit := by
  rw [entryFile, entryFile, h.buildDir_eq, h.suffix_eq]

/-- The log was written to its file, in a tree that keeps all that was there before. -/
theorem exists_write : ∃ files, a.files.AddsDirs files ∧
    files.write (b.entryFile log.unit) log.toJson.pretty = .ok b.files := by
  rw [h.entryFile_eq]
  exact h.files

/-- Storing a log leaves all directories in place. -/
theorem keepsDirs : a.files.KeepsDirs b.files := by
  obtain ⟨files, hdirs, hwrite⟩ := h.exists_write
  exact fun loc hdir => FileTree.keepsDirs_write hwrite loc (hdirs.keeps.dirs loc hdir)

/-- A path to the location of the log reads it. -/
theorem read_of_resolve_eq {path : String}
    (heq : b.files.resolve path = b.files.resolve (b.entryFile log.unit)) :
    b.files.read path = .ok log.toJson.pretty := by
  obtain ⟨files, _, hwrite⟩ := h.exists_write
  have hread := FileTree.read_write_of_resolve_eq hwrite rfl
  obtain ⟨loc, hloc, hnode⟩ := FileTree.read_eq_ok_iff.mp hread
  exact FileTree.read_eq_ok_iff.mpr ⟨loc, heq.trans hloc, hnode⟩

/-- The file of the unit holds the log. -/
theorem fileLog_self : b.fileLog log.unit = .ok log :=
  fileLog_eq_ok_iff.mpr ⟨h.isUnitName, rfl, _, h.read_of_resolve_eq rfl,
    UnitLog.parse_written .indented log⟩

/-- Where the file of another unit is at another location, it holds the same log as before. -/
theorem fileLog_of_fileLog {unit : String} {found : UnitLog} (hfile : a.fileLog unit = .ok found)
    (hne : b.files.resolve (b.entryFile unit) ≠ b.files.resolve (b.entryFile log.unit)) :
    b.fileLog unit = .ok found := by
  obtain ⟨hname, hfound, content, hread, hparse⟩ := fileLog_eq_ok_iff.mp hfile
  obtain ⟨files, hadded, hwrite⟩ := h.exists_write
  have hbefore : files.read (b.entryFile unit) = .ok content := by
    rw [h.entryFile_eq]
    exact hadded.keeps.read hread
  have hother : files.resolve (b.entryFile unit) ≠ files.resolve (b.entryFile log.unit) := by
    intro heq
    obtain ⟨loc, hloc, _⟩ := FileTree.read_eq_ok_iff.mp hbefore
    have hdirs := FileTree.keepsDirs_write hwrite
    exact hne ((hdirs.resolve hloc).trans (hdirs.resolve (heq.symm.trans hloc)).symm)
  exact fileLog_eq_ok_iff.mpr ⟨hname, hfound, content,
    FileTree.read_write_of_resolve_ne hwrite hbefore hother, hparse⟩

/-- What is at another location stays there. -/
theorem node_of_node {loc : Location} {node : Node} (hnode : a.files.node? loc = some node)
    (hne : b.files.resolve (b.entryFile log.unit) ≠ .ok loc) : b.files.node? loc = some node := by
  obtain ⟨files, hdirs, hwrite⟩ := h.exists_write
  have hkeeps := FileTree.keepsDirs_write hwrite
  obtain ⟨target, hpath, _, hfiles⟩ := FileTree.write_eq_ok hwrite
  have hloc : loc ≠ target := by
    rintro rfl
    exact hne (hkeeps.resolve hpath)
  rw [hfiles, FileTree.node?_put_of_ne hloc]
  exact hdirs.keeps loc node hnode

/-- Every file holds the log or was there before. -/
theorem file_of_file {loc : Location} {node : Node} (hnode : node ≠ .directory)
    (hfile : b.files.node? loc = some node) :
    a.files.node? loc = some node ∨
      b.files.resolve (b.entryFile log.unit) = .ok loc ∧ node = .file log.toJson.pretty := by
  obtain ⟨files, hdirs, hwrite⟩ := h.exists_write
  rcases FileTree.file_of_write hwrite hfile with hnew | hbefore
  · exact .inr hnew
  · exact .inl (hdirs.file_of_file hnode hbefore)

end Stores

private theorem discard_apply {α : Type} (x : ArchiveM α) (a : Archive) :
    discard x a = ((x a).1.map fun _ => (), (x a).2) := by
  have hbind : discard x = x >>= fun _ => pure () := by
    rw [bind_pure_comp]
    rfl
  rw [hbind]
  rcases hx : x a with ⟨e | v, b⟩
  · rw [bind_of_error hx]
    rfl
  · rw [bind_of_ok hx]
    rfl

/-- Compiling a unit is to finish its imports, to run its commands against their logs, and to store
what was recorded. -/
theorem compile_apply (keyword : String) (source : UnitSource) (a : Archive) :
    compile keyword source a =
      if isUnitName source.name then
        match closure source.imports a with
        | (.error e, mid) => (.error e, mid)
        | (.ok units, mid) =>
          if source.name ∈ units then (.error (.importsItself source.name), mid)
          else
            let s := (session keyword source
              (units.filterMap fun unit => mid.known.lookup unit)).finish
            match store s.log { mid with events := mid.events ++ s.draft.events } with
            | (.error e, b) => (.error e, b)
            | (.ok path, b) =>
              (.ok {
                unit := source.name
                entryPath := path
                entryCount := s.log.entries.length
                statuses := s.statuses
                diagnostics := s.diagnostics
                dumped := s.dumped }, b)
      else (.error (.invalidUnitName source.name), a) := by
  have hpath := discard_apply (entryPath source.name) a
  rw [entryPath_apply] at hpath
  unfold compile
  by_cases hname : Archive.isUnitName source.name = true
  · rw [if_pos hname] at hpath ⊢
    rw [bind_of_ok hpath]
    rcases hclosure : closure source.imports a with ⟨e | units, mid⟩
    · exact bind_of_error hclosure
    · rw [bind_of_ok hclosure]
      dsimp only
      by_cases hself : source.name ∈ units
      · rw [if_pos (by simpa using hself), if_pos hself]
        rfl
      · rw [if_neg (by simpa using hself), if_neg hself]
        rw [bind_of_ok (logs_apply units mid)]
        let s := (session keyword source (units.filterMap fun unit => mid.known.lookup unit)).finish
        rcases hstore : store s.log { mid with events := mid.events ++ s.draft.events } with
          ⟨e | path, b⟩
        · exact (bind_of_ok rfl).trans (bind_of_error hstore)
        · exact (bind_of_ok rfl).trans (bind_of_ok hstore)
  · rw [if_neg hname] at hpath ⊢
    exact bind_of_error hpath

/-- All that a compilation may come to, with the archive it leaves behind. -/
inductive Outcome (keyword : String) (source : UnitSource) (a : Archive) :
    Except Failure Report → Archive → Prop
  /-- The unit has no proper name. -/
  | name : ¬ isUnitName source.name = true →
      Outcome keyword source a (.error (.invalidUnitName source.name)) a
  /-- The imports cannot be finished. -/
  | imports {e : Failure} {b : Archive} : isUnitName source.name = true →
      closure source.imports a = (.error e, b) → Outcome keyword source a (.error e) b
  /-- The unit is among its imports. -/
  | itself {units : List String} {b : Archive} : isUnitName source.name = true →
      closure source.imports a = (.ok units, b) → source.name ∈ units →
      Outcome keyword source a (.error (.importsItself source.name)) b
  /-- The log of the unit cannot be stored. -/
  | log {units : List String} {mid : Archive} {e : Failure} {files : FileTree}
      {events : List Event} : closure source.imports a = (.ok units, mid) → source.name ∉ units →
      mid.files.AddsDirs files → (∀ chain, e ≠ .importCycle chain) →
      Outcome keyword source a (.error e) { mid with files, events }
  /-- The log of the unit is stored. -/
  | stored {units : List String} {mid : Archive} {imported : List UnitLog} {report : Report}
      {b : Archive} : closure source.imports a = (.ok units, mid) → source.name ∉ units →
      logs units mid = (.ok imported, mid) → mid.Stores (session keyword source imported).log b →
      Outcome keyword source a (.ok report) b

/-- Every compilation ends in one of these ways. -/
theorem outcome_compile (keyword : String) (source : UnitSource) (a : Archive) :
    Outcome keyword source a (compile keyword source a).1 (compile keyword source a).2 := by
  rw [compile_apply]
  by_cases hname : Archive.isUnitName source.name = true
  · rw [if_pos hname]
    rcases hclosure : closure source.imports a with ⟨e | units, mid⟩
    · exact .imports hname hclosure
    · dsimp only
      by_cases hself : source.name ∈ units
      · rw [if_pos hself]
        exact .itself hname hclosure hself
      · rw [if_neg hself]
        let imported := units.filterMap fun unit => mid.known.lookup unit
        let s := (session keyword source imported).finish
        rcases store_cases s.log { mid with events := mid.events ++ s.draft.events } with
          ⟨path, b, hstore, hstores⟩ | ⟨e, files, hstore, hdirs, hcycle⟩
        · rw [hstore]
          exact .stored hclosure hself (logs_apply units mid)
            ⟨hstores.isUnitName, hstores.buildDir_eq, hstores.suffix_eq, hstores.known_eq,
              hstores.files⟩
        · rw [hstore]
          exact (Outcome.log hclosure hself hdirs hcycle :)
  · rw [if_neg hname]
    exact .name hname

/-- A compilation that succeeds has finished its imports and stored the log of its session. -/
theorem compile_eq_ok {keyword : String} {source : UnitSource} {report : Report} {a b : Archive}
    (h : compile keyword source a = (.ok report, b)) :
    ∃ units mid imported, closure source.imports a = (.ok units, mid) ∧ source.name ∉ units ∧
      logs units mid = (.ok imported, mid) ∧
      mid.Stores (session keyword source imported).log b := by
  have houtcome := outcome_compile keyword source a
  rw [h] at houtcome
  cases houtcome with
  | stored hclosure hself hlogs hstores => exact ⟨_, _, _, hclosure, hself, hlogs, hstores⟩

/-- After the last command the draft belongs to the unit, and its ledger is that of the imported
units with its own entries replayed. -/
theorem session_draft (keyword : String) (source : UnitSource) (imported : List UnitLog) :
    (session keyword source imported).draft.unit = source.name ∧
    (session keyword source imported).draft.imports = source.imports ∧
    (session keyword source imported).draft.ledger =
      (Ledger.merge imported).replay (session keyword source imported).draft.entries := by
  unfold session
  obtain ⟨added, hadded⟩ := Session.extendsBy_runAll _ source.commands
  refine ⟨hadded.unit_eq, hadded.imports_eq, ?_⟩
  rw [hadded.ledger_eq, hadded.entries_eq]
  rfl

end PropExport.Archive
