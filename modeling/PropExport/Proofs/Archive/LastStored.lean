import PropExport.Proofs.Archive.History

/-!
# The last log that was stored

After logs were stored one after the other, whatever archive stored them, an archive that is opened
afresh on the same files gives for every unit the last log that was stored for it. The written form
of a log loses nothing, and the files of different units are apart, so no log is written over that
of another unit.
-/

namespace PropExport.Archive

/-- Logs are stored one after the other, in one archive or in several that are open on the same
files. The last log is the first of the list. -/
inductive StoresEach (start : Archive) : List UnitLog → Archive → Prop
  | nil : StoresEach start [] start
  | store {logs : List UnitLog} {log : UnitLog} {a b : Archive} {path : String} :
      StoresEach start logs a → store log a = (.ok path, b) → StoresEach start (log :: logs) b
  | switch {logs : List UnitLog} {a b : Archive} :
      StoresEach start logs a → b.reopened = a.reopened → StoresEach start logs b

namespace StoresEach

variable {start b : Archive} {logs : List UnitLog} (h : StoresEach start logs b)

include h

/-- The suffix never changes. -/
theorem suffix_eq : b.suffix = start.suffix := by
  induction h with
  | nil => rfl
  | store _ hstore ih => exact (stores_of_store hstore).suffix_eq.trans ih
  | switch _ hsame ih => exact (reopened_eq_iff.mp hsame).2.1.trans ih

/-- The file of a unit holds the last log that was stored for it, or the one that it held at the
start. -/
theorem fileLog_eq_ok (hsuffix : '/' ∉ start.suffix.toList) {unit : String} {log : UnitLog}
    (hlog : logs.find? (·.unit = unit) = some log ∨
      (∀ stored ∈ logs, stored.unit ≠ unit) ∧ start.fileLog unit = .ok log) :
    b.fileLog unit = .ok log := by
  induction h generalizing log with
  | nil => simpa using hlog
  | @store logs added a b _ hbefore hstore ih =>
    have hadds := (Recalls.refl a).adds_stores (stores_of_store hstore)
    by_cases hunit : added.unit = unit
    · obtain rfl : added = log := by simpa [hunit] using hlog
      exact hunit ▸ hadds.fileLog_new added rfl
    · have hsuffix' : '/' ∉ b.suffix.toList := by
        rwa [hadds.suffix_eq, hbefore.suffix_eq]
      refine hadds.fileLog_of_separated (separated_of_no_slash hsuffix') ?_ (ih ?_)
      · rintro _ ⟨⟩
        exact Ne.symm hunit
      · simpa [hunit] using hlog
  | switch _ hsame ih =>
    rw [fileLog_of_reopened_eq hsame]
    exact ih hlog

/-- In an archive that started without logs, whatever stands where a unit has its file was
stored. -/
theorem written (hstart : start.Vacant) {unit : String} {loc : Location} {content : String}
    (hentry : b.EntryAt unit loc) (hnode : b.files.node? loc = some (.file content)) :
    ∃ log ∈ logs, content = log.toJson.pretty := by
  induction h with
  | nil => exact absurd hnode (hstart.no_file unit loc content hentry)
  | @store logs added a b _ _ hstore ih =>
    have hadds := (Recalls.refl a).adds_stores (stores_of_store hstore)
    rcases hadds.file_of_file hnode with hbefore | ⟨_, ⟨⟩, _, hcontent⟩
    · rw [EntryAt, hadds.entryFile_eq] at hentry
      obtain ⟨log, hlog, hcontent⟩ := ih hentry hbefore
      exact ⟨log, List.mem_cons_of_mem _ hlog, hcontent⟩
    · exact ⟨added, by simp, hcontent⟩
  | @switch logs a b _ hsame ih =>
    obtain ⟨hdir, hsuffix, hfiles⟩ := reopened_eq_iff.mp hsame
    rw [EntryAt, entryFile, hdir, hsuffix] at hentry
    exact ih hentry (hfiles ▸ hnode)

/-- In an archive that started without logs, only what was stored is found. -/
theorem exists_mem_of_fileLog (hstart : start.Vacant) {unit : String} {log : UnitLog}
    (hlog : b.fileLog unit = .ok log) : ∃ stored ∈ logs, stored.unit = unit := by
  obtain ⟨loc, content, hentry, hnode, hparse, hunit⟩ := exists_entryAt_of_fileLog hlog
  obtain ⟨stored, hstored, rfl⟩ := h.written hstart hentry hnode
  rw [Json.pretty, UnitLog.parse_written] at hparse
  exact ⟨stored, hstored, (congrArg UnitLog.unit (Except.ok.inj hparse)).trans hunit⟩

end StoresEach

/-- A log is read back from its compact and from its indented form, whatever characters its texts
hold. So after logs were stored one after the other, with a suffix that has no slash in it, a fresh
archive gives for every unit the last log that was stored for it. A unit for which none was stored
keeps the log it had, and has none if there were no logs at the start. -/
theorem load_last_stored :
    (∀ log : UnitLog, UnitLog.parse log.toJson.compact = .ok log ∧
      UnitLog.parse log.toJson.pretty = .ok log) ∧
    ∀ (start b : Archive) (logs : List UnitLog), '/' ∉ start.suffix.toList →
      StoresEach start logs b →
      (∀ unit log, logs.find? (·.unit = unit) = some log →
        (load unit b.reopened).1 = .ok log) ∧
      ∀ unit, (∀ stored ∈ logs, stored.unit ≠ unit) →
        (∀ log, (load unit start.reopened).1 = .ok log → (load unit b.reopened).1 = .ok log) ∧
        (start.Vacant → ∀ log, (load unit b.reopened).1 ≠ .ok log) := by
  refine ⟨fun log => ⟨UnitLog.parse_written .compact log, UnitLog.parse_written .indented log⟩, ?_⟩
  intro start b logs hsuffix h
  have hload (a : Archive) (unit : String) : (load unit a.reopened).1 = a.fileLog unit :=
    stored_reopened a unit
  simp only [hload]
  refine ⟨fun unit log hlog => h.fileLog_eq_ok hsuffix (.inl hlog), fun unit hnone => ⟨?_, ?_⟩⟩
  · exact fun log hlog => h.fileLog_eq_ok hsuffix (.inr ⟨hnone, hlog⟩)
  · intro hstart log hlog
    obtain ⟨stored, hstored, hunit⟩ := h.exists_mem_of_fileLog hstart hlog
    exact hnone stored hstored hunit

/-- A log with quotes, a backslash, a line break and a control character is stored, then a log of
another unit, and then, in a second archive, another log for the first unit. -/
theorem load_last_stored_twice :
    let start := Options.archive {} {}
    let first : UnitLog := ⟨"a", ["b\\"], [.bind "\"one\"" "On\ne"]⟩
    let other : UnitLog := ⟨"b\"", [], [.publish "axiom \x01"]⟩
    let last : UnitLog := ⟨"a", [], [.publish "axiom A: 1 == 1"]⟩
    let b := (store last (store other (store first start).2).2.reopened).2
    '/' ∉ start.suffix.toList ∧ StoresEach start [last, other, first] b ∧ start.Vacant ∧
    (load "a" b.reopened).1 = .ok last ∧ (load "b\"" b.reopened).1 = .ok other ∧
    ∀ log, (load "c" b.reopened).1 ≠ .ok log := by
  intro start first other last b
  have hsuffix : '/' ∉ start.suffix.toList := by decide
  have hstart : start.Vacant := vacant_archive {}
  have hstores (log : UnitLog) (a : Archive) (hok : (store log a).1.toBool = true) :
      ∃ path, store log a = (.ok path, (store log a).2) := by
    obtain ⟨path, hpath⟩ := exists_ok_of_toBool hok
    exact ⟨path, Prod.ext hpath rfl⟩
  obtain ⟨_, hfirst⟩ := hstores first start (by decide +kernel)
  obtain ⟨_, hother⟩ := hstores other (store first start).2 (by decide +kernel)
  obtain ⟨_, hlast⟩ :=
    hstores last (store other (store first start).2).2.reopened (by decide +kernel)
  have hboth : StoresEach start [other, first] (store other (store first start).2).2.reopened :=
    .switch (.store (.store .nil hfirst) hother) rfl
  have heach : StoresEach start [last, other, first] b := .store hboth hlast
  obtain ⟨hfound, hnone⟩ := load_last_stored.2 start b _ hsuffix heach
  exact ⟨hsuffix, heach, hstart, hfound "a" last rfl, hfound "b\"" other rfl,
    (hnone "c" (by decide)).2 hstart⟩

end PropExport.Archive
