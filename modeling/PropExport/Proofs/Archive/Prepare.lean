import PropExport.Proofs.Archive.Replay

/-!
# Before and after the first write

Compiling a unit falls into two parts. First its imports are finished and its commands are run
against their logs, which looks things up and writes nothing. Then its log is stored. What the first
part comes to depends on the logs of the units that the imports reach and on nothing else; what the
second part does depends on the files and on where logs stand, not on what is remembered.
-/

namespace PropExport

/-- The report on a session whose log was stored. -/
def Session.reportAt (s : Session) (name path : String) : Report where
  unit := name
  entryPath := path
  entryCount := s.log.entries.length
  statuses := s.statuses
  diagnostics := s.diagnostics
  dumped := s.dumped

/-- Whether a log could not be stored. -/
def Failure.isStoring : Failure → Bool
  | .createDir _ _ | .write _ _ => true
  | _ => false

namespace Archive

open ImportGraph

/-- Archives are open on the same files. -/
theorem reopened_eq_iff {a b : Archive} :
    b.reopened = a.reopened ↔
      b.buildDir = a.buildDir ∧ b.suffix = a.suffix ∧ b.files = a.files := by
  simp [reopened]

/-- What files decode to is the same in archives that are open on the same files. -/
theorem fileLog_of_reopened_eq {a b : Archive} (h : b.reopened = a.reopened) :
    b.fileLog = a.fileLog := by
  obtain ⟨hdir, hsuffix, hfiles⟩ := reopened_eq_iff.mp h
  exact fileLog_congr hdir hsuffix hfiles

/-- Looking things up leaves the files as they are. -/
theorem Recalls.reopened_eq {a b : Archive} (h : a.Recalls b) : b.reopened = a.reopened :=
  reopened_eq_iff.mpr ⟨h.buildDir_eq, h.suffix_eq, h.files_eq⟩

/-- Finishing imports only looks things up, whether it succeeds or not. -/
theorem recalls_closure {a b : Archive} {names : List String}
    {outcome : Except Failure (List String)} (h : closure names a = (outcome, b)) :
    a.Recalls b := by
  obtain ⟨b', hwalk, hrecalls, _⟩ := closure_apply names a
  obtain rfl : b = b' := congrArg Prod.snd (h.symm.trans hwalk)
  exact hrecalls

/-- All that some units reach is finished with them. -/
theorem mem_of_closure {a b : Archive} {names units : List String} {unit : String}
    (h : closure names a = (.ok units, b)) (hreach : a.graph.Reaches names unit) :
    unit ∈ units := by
  obtain ⟨visits, hvisits, rfl⟩ := closure_eq_ok_iff.mp (congrArg Prod.fst h)
  exact List.mem_eraseDups.mpr (hvisits.mem_iff_reaches.mpr hreach)

/-- All that is finished is remembered. -/
theorem remembers_of_closure {a b : Archive} {names units : List String}
    (h : closure names a = (.ok units, b)) : b.Remembers units := by
  obtain ⟨b', hwalk, _, hremembers⟩ := closure_apply names a
  obtain rfl : b = b' := congrArg Prod.snd (h.symm.trans hwalk)
  exact hremembers units h

/-- Noting events leaves an archive as it is. -/
theorem recalls_note (a : Archive) (events : List Event) : a.Recalls { a with events } := by
  refine ⟨rfl, rfl, rfl, ?_, id⟩
  funext unit
  rw [stored_eq, stored_eq, fileLog_congr (a := a) (b := { a with events }) rfl rfl rfl]

/-- Replaying a unit is to finish it and to merge the logs that the archive gives. -/
theorem ledgerOf_apply (unit : String) (a : Archive) :
    (ledgerOf unit a).1 = ((closure [unit] a).1.map fun units =>
      Ledger.merge (units.filterMap fun unit => (a.stored unit).toOption)) ∧
    a.Recalls (ledgerOf unit a).2 := by
  unfold ledgerOf
  rcases hclosure : closure [unit] a with ⟨e | units, mid⟩
  · rw [bind_of_error hclosure]
    exact ⟨rfl, recalls_closure hclosure⟩
  · rw [bind_of_ok hclosure, bind_of_ok (logs_apply units mid), filterMap_known_of_closure hclosure]
    exact ⟨rfl, (recalls_closure hclosure).trans (recalls_note mid _)⟩

/-- Storing a log depends on the files and on where logs stand, not on what is remembered. -/
theorem store_congr {a b : Archive} (log : UnitLog) (h : b.reopened = a.reopened) :
    (store log b).1 = (store log a).1 ∧ (store log b).2.reopened = (store log a).2.reopened := by
  obtain ⟨buildDir, suffix, files, known, events⟩ := a
  obtain ⟨buildDir', suffix', files', known', events'⟩ := b
  obtain ⟨rfl, rfl, rfl⟩ := reopened_eq_iff.mp h
  rw [store_apply, store_apply]
  by_cases hname : isUnitName log.unit = true
  · rw [if_pos hname, if_pos hname]
    rcases files'.createDirs buildDir' with ⟨e | u, created⟩
    · exact ⟨rfl, rfl⟩
    · dsimp only [entryFile]
      cases created.write (Path.join buildDir' (log.unit ++ "." ++ suffix')) log.toJson.pretty with
      | error e => exact ⟨rfl, rfl⟩
      | ok written => exact ⟨rfl, rfl⟩
  · rw [if_neg hname, if_neg hname]
    exact ⟨rfl, rfl⟩

/-- Storing the log of a unit with a proper name fails only where its file cannot be written. -/
theorem isStoring_of_store {log : UnitLog} {a : Archive} {e : Failure}
    (hname : isUnitName log.unit = true) (h : (store log a).1 = .error e) : e.isStoring = true := by
  rw [store_apply, if_pos hname] at h
  rcases hdirs : a.files.createDirs a.buildDir with ⟨e' | u, files⟩
  · rw [hdirs] at h
    rw [← Except.error.inj h]
    rfl
  · rw [hdirs] at h
    dsimp only at h
    cases hwrite : files.write (a.entryFile log.unit) log.toJson.pretty with
    | error e' =>
      rw [hwrite] at h
      rw [← Except.error.inj h]
      rfl
    | ok written =>
      rw [hwrite] at h
      cases h

/-- What compiling a unit comes to before its log is stored: the session that ran its commands. -/
def prepared (keyword : String) (source : UnitSource) (a : Archive) : Except Failure Session :=
  if isUnitName source.name then
    match (closure source.imports a).1 with
    | .error e => .error e
    | .ok units =>
      if source.name ∈ units then .error (.importsItself source.name)
      else .ok
        (session keyword source (units.filterMap fun unit => (a.stored unit).toOption)).finish
  else .error (.invalidUnitName source.name)

section Prepared

variable (keyword : String) (source : UnitSource) (a : Archive)

/-- Compiling is to prepare a session and to store its log. Once the session is prepared, all that
the imports reach is remembered, and the unit is not among it. -/
theorem exists_compile_eq_prepared : ∃ mid, a.Recalls mid ∧
    (∀ s, prepared keyword source a = .ok s → ∀ unit, a.graph.Reaches source.imports unit →
      unit ≠ source.name ∧ ∃ log, mid.known.lookup unit = some log) ∧
    compile keyword source a =
      match prepared keyword source a with
      | .error e => (.error e, mid)
      | .ok s =>
        match store s.log { mid with events := mid.events ++ s.draft.events } with
        | (.error e, b) => (.error e, b)
        | (.ok path, b) => (.ok (s.reportAt source.name path), b) := by
  rw [compile_apply, prepared]
  by_cases hname : isUnitName source.name = true
  · rw [if_pos hname, if_pos hname]
    rcases hclosure : closure source.imports a with ⟨e | units, mid⟩
    · exact ⟨mid, recalls_closure hclosure, by simp, rfl⟩
    · dsimp only
      by_cases hself : source.name ∈ units
      · rw [if_pos hself, if_pos hself]
        exact ⟨mid, recalls_closure hclosure, by simp, rfl⟩
      · rw [if_neg hself, if_neg hself, filterMap_known_of_closure hclosure]
        refine ⟨mid, recalls_closure hclosure, ?_, rfl⟩
        intro _ _ unit hreach
        have hmem : unit ∈ units := mem_of_closure hclosure hreach
        refine ⟨?_, remembers_of_closure hclosure unit hmem⟩
        rintro rfl
        exact hself hmem
  · rw [if_neg hname, if_neg hname]
    exact ⟨a, .refl a, by simp, rfl⟩

/-- A session that was prepared belongs to the unit, whose name is proper. -/
theorem isUnitName_of_prepared {s : Session} (h : prepared keyword source a = .ok s) :
    isUnitName source.name = true ∧ s.log.unit = source.name := by
  unfold prepared at h
  split at h
  · next hname =>
    refine ⟨hname, ?_⟩
    split at h
    · cases h
    · split at h
      · cases h
      · cases h
        exact (session_draft keyword source _).1
  · cases h

/-- Where a unit cannot be prepared, nothing is written. -/
theorem compile_of_prepared_error {e : Failure} (h : prepared keyword source a = .error e) :
    (compile keyword source a).1 = .error e ∧ a.Recalls (compile keyword source a).2 := by
  obtain ⟨mid, hrecalls, _, hcompile⟩ := exists_compile_eq_prepared keyword source a
  rw [hcompile, h]
  exact ⟨rfl, hrecalls⟩

/-- Where a unit was prepared, its log is stored, and the outcome is that of storing it. -/
theorem compile_of_prepared_ok {s : Session} (h : prepared keyword source a = .ok s) :
    (compile keyword source a).1 = (store s.log a).1.map (s.reportAt source.name) ∧
    (compile keyword source a).2.reopened = (store s.log a).2.reopened := by
  obtain ⟨mid, hrecalls, _, hcompile⟩ := exists_compile_eq_prepared keyword source a
  have hsame : reopened { mid with events := mid.events ++ s.draft.events } = a.reopened :=
    hrecalls.reopened_eq
  obtain ⟨houtcome, hfiles⟩ := store_congr s.log hsame
  rw [hcompile, h]
  dsimp only
  rcases hstore : store s.log { mid with events := mid.events ++ s.draft.events } with ⟨e | path, b⟩
  · rw [hstore] at houtcome hfiles
    exact ⟨by rw [← houtcome]; rfl, hfiles⟩
  · rw [hstore] at houtcome hfiles
    exact ⟨by rw [← houtcome]; rfl, hfiles⟩

/-- A failure that is not one of storing a log comes before anything is written. -/
theorem prepared_of_compile_error {e : Failure} (h : (compile keyword source a).1 = .error e)
    (hbefore : e.isStoring = false) : prepared keyword source a = .error e := by
  cases hprepared : prepared keyword source a with
  | error e' =>
    rw [(compile_of_prepared_error keyword source a hprepared).1] at h
    rw [Except.error.inj h]
  | ok s =>
    obtain ⟨hname, hunit⟩ := isUnitName_of_prepared keyword source a hprepared
    rw [(compile_of_prepared_ok keyword source a hprepared).1] at h
    cases hstore : (store s.log a).1 with
    | ok path =>
      rw [hstore] at h
      cases h
    | error e' =>
      rw [hstore] at h
      obtain rfl : e' = e := Except.error.inj h
      rw [isStoring_of_store (hunit ▸ hname) hstore] at hbefore
      cases hbefore

/-- Apart from the unit itself, compiling remembers what looking things up remembers. -/
theorem exists_recalls_known_compile : ∃ mid, a.Recalls mid ∧
    (∀ s, prepared keyword source a = .ok s → ∀ unit, a.graph.Reaches source.imports unit →
      unit ≠ source.name ∧ ∃ log, mid.known.lookup unit = some log) ∧
    ∀ unit ≠ source.name,
      (compile keyword source a).2.known.lookup unit = mid.known.lookup unit := by
  obtain ⟨mid, hrecalls, hremembers, hcompile⟩ := exists_compile_eq_prepared keyword source a
  refine ⟨mid, hrecalls, hremembers, fun unit hne => ?_⟩
  rw [hcompile]
  cases hprepared : prepared keyword source a with
  | error e => rfl
  | ok s =>
    have hunit := (isUnitName_of_prepared keyword source a hprepared).2
    dsimp only
    rcases store_cases s.log { mid with events := mid.events ++ s.draft.events } with
      ⟨path, b, hstore, hstores⟩ | ⟨e, files, hstore, _⟩
    · rw [hstore]
      dsimp only
      rw [hstores.known_eq, hunit, List.lookup_cons, beq_eq_false_iff_ne.mpr hne]
    · rw [hstore]

end Prepared

/-- Preparing a unit looks at nothing but the logs of what its imports reach. -/
theorem prepared_congr {keyword : String} {source : UnitSource} {a b : Archive}
    (h : ∀ unit, a.graph.Reaches source.imports unit → b.stored unit = a.stored unit) :
    prepared keyword source b = prepared keyword source a := by
  have hclosure : (closure source.imports b).1 = (closure source.imports a).1 := by
    refine closure_congr fun unit hreach => ?_
    rw [graph, graph, h unit hreach]
  rw [prepared, prepared, hclosure]
  cases horder : (closure source.imports a).1 with
  | error e => rfl
  | ok units =>
    obtain ⟨visits, hvisits, rfl⟩ := closure_eq_ok_iff.mp horder
    have hlogs : (visits.eraseDups.filterMap fun unit => (b.stored unit).toOption) =
        visits.eraseDups.filterMap fun unit => (a.stored unit).toOption := by
      refine List.filterMap_congr fun unit hunit => ?_
      rw [h unit (hvisits.mem_iff_reaches.mp (List.mem_eraseDups.mp hunit))]
    simp only [hlogs]

/-- A unit that was compiled, successfully or not, is prepared in the same way again. -/
theorem prepared_compile_self (keyword : String) (source : UnitSource) (a : Archive) :
    prepared keyword source (compile keyword source a).2 = prepared keyword source a := by
  refine prepared_congr fun unit hreach => ?_
  cases hprepared : prepared keyword source a with
  | error e =>
    obtain ⟨_, hrecalls⟩ := compile_of_prepared_error keyword source a hprepared
    rw [hrecalls.stored_eq]
  | ok s =>
    obtain ⟨mid, hrecalls, hremembers, hknown⟩ := exists_recalls_known_compile keyword source a
    obtain ⟨hne, log, hlog⟩ := hremembers s hprepared unit hreach
    rw [stored_of_known ((hknown unit hne).trans hlog), ← hrecalls.stored_eq, stored_of_known hlog]

end Archive

end PropExport
