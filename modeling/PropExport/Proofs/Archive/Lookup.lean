import PropExport.Archive.Compile
import PropExport.Proofs.Imports.Walk

/-!
# Looking up logs

What an archive gives for a unit, from memory or from its file, and what looking things up does to
the archive: it may remember more afterwards, but it gives the same for every unit.
-/

namespace PropExport

namespace Archive

/-- The path of the file that holds the log of a unit. -/
def entryFile (a : Archive) (unit : String) : String :=
  Path.join a.buildDir (unit ++ "." ++ a.suffix)

/-- What the file of a unit decodes to. -/
def fileLog (a : Archive) (unit : String) : Except Failure UnitLog :=
  (readLog unit a).1

/-- What an archive gives for a unit. -/
def stored (a : Archive) (unit : String) : Except Failure UnitLog :=
  (load unit a).1

/-- The import lists of the logs that an archive gives. -/
def graph (a : Archive) : ImportGraph := fun unit =>
  (a.stored unit).map UnitLog.imports

/-- The path of a log is given for proper unit names only, and nothing changes. -/
theorem entryPath_apply (unit : String) (a : Archive) :
    entryPath unit a =
      (if isUnitName unit then .ok (a.entryFile unit) else .error (.invalidUnitName unit), a) := by
  rw [entryPath, get_bind]
  split <;> rfl

/-- Reading a log changes nothing. The file has to be there, to be readable as a log and to belong
to the unit. -/
theorem readLog_eq (unit : String) (a : Archive) :
    readLog unit a =
      (if isUnitName unit then
        if a.files.pathExists (a.entryFile unit) then
          match a.files.read (a.entryFile unit) with
          | .error e => .error (.unreadableLog (a.entryFile unit) e)
          | .ok content =>
            match UnitLog.parse content with
            | .error e => .error (.malformedLog (a.entryFile unit) e)
            | .ok log =>
              if log.unit = unit then .ok log
              else .error (.foreignLog (a.entryFile unit) log.unit unit)
        else .error (.notCompiled unit (a.entryFile unit))
      else .error (.invalidUnitName unit), a) := by
  have hpath := entryPath_apply unit a
  unfold readLog
  by_cases hname : isUnitName unit = true
  · rw [if_pos hname] at hpath
    rw [bind_of_ok hpath, get_bind, if_pos hname]
    by_cases hexists : a.files.pathExists (a.entryFile unit) = true
    · rw [if_pos hexists, if_pos hexists]
      cases a.files.read (a.entryFile unit) with
      | error e => rfl
      | ok content =>
        cases hparse : UnitLog.parse content with
        | error e => simp only [hparse]; rfl
        | ok log =>
          simp only [hparse]
          split <;> rfl
    · rw [if_neg hexists, if_neg hexists]
      rfl
  · rw [if_neg hname] at hpath
    rw [bind_of_error hpath, if_neg hname]

private theorem readLog_apply (unit : String) (a : Archive) :
    readLog unit a = (a.fileLog unit, a) := by
  rw [fileLog, readLog_eq]

/-- What a file decodes to depends on the files and on where the logs stand, not on what is
remembered. -/
theorem fileLog_congr {a b : Archive} (hdir : b.buildDir = a.buildDir)
    (hsuffix : b.suffix = a.suffix) (hfiles : b.files = a.files) : b.fileLog = a.fileLog := by
  funext unit
  rw [fileLog, fileLog, readLog_eq, readLog_eq, entryFile, entryFile, hdir, hsuffix, hfiles]

/-- The file of a unit decodes to a log exactly if it is there, can be read as that log and belongs
to the unit. -/
theorem fileLog_eq_ok_iff {a : Archive} {unit : String} {log : UnitLog} :
    a.fileLog unit = .ok log ↔
      isUnitName unit = true ∧ log.unit = unit ∧
      ∃ content, a.files.read (a.entryFile unit) = .ok content ∧
        UnitLog.parse content = .ok log := by
  rw [fileLog, readLog_eq]
  dsimp only
  constructor
  · intro h
    by_cases hname : isUnitName unit = true
    · rw [if_pos hname] at h
      by_cases hexists : a.files.pathExists (a.entryFile unit) = true
      · rw [if_pos hexists] at h
        cases hread : a.files.read (a.entryFile unit) with
        | error e => simp [hread] at h
        | ok content =>
          cases hparse : UnitLog.parse content with
          | error e => simp [hread, hparse] at h
          | ok found =>
            by_cases hunit : found.unit = unit
            · obtain rfl : found = log := by simpa [hread, hparse, hunit] using h
              exact ⟨hname, hunit, content, rfl, hparse⟩
            · simp [hread, hparse, hunit] at h
      · simp [hexists] at h
    · simp [hname] at h
  · rintro ⟨hname, hunit, content, hread, hparse⟩
    have hexists : a.files.pathExists (a.entryFile unit) = true := by
      unfold FileTree.pathExists
      cases hstat : a.files.stat (a.entryFile unit) with
      | ok node => rfl
      | error e => simp [FileTree.read, hstat, bind, Except.bind] at hread
    simp [hname, hexists, hread, hparse, hunit]

section Load

variable {a : Archive} {unit : String} {log : UnitLog}

private theorem load_of_known (h : a.known.lookup unit = some log) :
    load unit a = (.ok log, a) := by
  unfold load
  rw [get_bind, h]
  rfl

private theorem load_of_fileLog_error {e : Failure} (h : a.known.lookup unit = none)
    (hfile : a.fileLog unit = .error e) : load unit a = (.error e, a) := by
  unfold load
  rw [get_bind, h]
  exact bind_of_error (hfile ▸ readLog_apply unit a)

private theorem load_of_fileLog_ok (h : a.known.lookup unit = none)
    (hfile : a.fileLog unit = .ok log) :
    load unit a =
      (.ok log,
        { a with
          known := (log.unit, log) :: a.known
          events := a.events ++ [.loaded unit log.entries.length] }) := by
  unfold load
  rw [get_bind, h]
  exact bind_of_ok (hfile ▸ readLog_apply unit a)

/-- An archive gives the log it remembers, or else the one in the file. -/
theorem stored_eq (a : Archive) (unit : String) :
    a.stored unit =
      match a.known.lookup unit with
      | some log => .ok log
      | none => a.fileLog unit := by
  unfold stored
  cases hknown : a.known.lookup unit with
  | some log => rw [load_of_known hknown]
  | none =>
    cases hfile : a.fileLog unit with
    | error e => rw [load_of_fileLog_error hknown hfile]
    | ok log => rw [load_of_fileLog_ok hknown hfile]

/-- A log that is remembered is the one that is given. -/
theorem stored_of_known (h : a.known.lookup unit = some log) : a.stored unit = .ok log := by
  rw [stored_eq, h]

end Load

/-- A log that cannot be given is not blamed on a cycle. -/
theorem stored_ne_importCycle (a : Archive) (unit : String) (chain : List String) :
    a.stored unit ≠ .error (.importCycle chain) := by
  intro h
  rw [stored_eq, fileLog, readLog_eq] at h
  repeat' split at h
  all_goals cases h

/-- The import graph fails to load a unit for the reason for which no log is given. -/
theorem graph_eq_error_iff {a : Archive} {unit : String} {e : Failure} :
    a.graph unit = .error e ↔ a.stored unit = .error e :=
  map_eq_error_iff

/-- What looking things up may do to an archive: nothing is written, nothing is forgotten, and the
archive gives the same for every unit. -/
structure Recalls (a b : Archive) : Prop where
  buildDir_eq : b.buildDir = a.buildDir
  suffix_eq : b.suffix = a.suffix
  files_eq : b.files = a.files
  stored_eq : b.stored = a.stored
  known_mono : ∀ {unit log}, a.known.lookup unit = some log → b.known.lookup unit = some log

/-- Doing nothing is looking things up. -/
theorem Recalls.refl (a : Archive) : a.Recalls a :=
  ⟨rfl, rfl, rfl, rfl, id⟩

/-- Looking things up twice is looking things up. -/
theorem Recalls.trans {a b c : Archive} (h : a.Recalls b) (h' : b.Recalls c) : a.Recalls c where
  buildDir_eq := h'.buildDir_eq.trans h.buildDir_eq
  suffix_eq := h'.suffix_eq.trans h.suffix_eq
  files_eq := h'.files_eq.trans h.files_eq
  stored_eq := h'.stored_eq.trans h.stored_eq
  known_mono hlog := h'.known_mono (h.known_mono hlog)

/-- Looking things up leaves the import graph as it is. -/
theorem Recalls.graph_eq {a b : Archive} (h : a.Recalls b) : b.graph = a.graph := by
  funext unit
  rw [graph, graph, h.stored_eq]

/-- Remembering the log that a file decodes to, with some events noted. -/
theorem recalls_remember {a : Archive} {unit : String} {log : UnitLog} (events : List Event)
    (hknown : a.known.lookup unit = none) (hfile : a.fileLog unit = .ok log) :
    a.Recalls { a with known := (log.unit, log) :: a.known, events } := by
  have hunit := (fileLog_eq_ok_iff.mp hfile).2.1
  refine ⟨rfl, rfl, rfl, ?_, ?_⟩
  · funext other
    rw [stored_eq, stored_eq, List.lookup_cons, hunit,
      fileLog_congr (a := a) (b := { a with known := (unit, log) :: a.known, events }) rfl rfl rfl]
    by_cases hother : other = unit
    · simp [hother, hknown, hfile]
    · simp [beq_eq_false_iff_ne.mpr hother]
  · intro other found hfound
    have hother : other ≠ unit := by
      rintro rfl
      simp [hknown] at hfound
    simpa [List.lookup_cons, hunit, beq_eq_false_iff_ne.mpr hother] using hfound

/-- Loading gives what the archive gives for the unit, and a log that was loaded is remembered. -/
theorem load_apply (unit : String) (a : Archive) :
    ∃ b, load unit a = (a.stored unit, b) ∧ a.Recalls b ∧
      ∀ log, a.stored unit = .ok log → b.known.lookup unit = some log := by
  rw [stored_eq]
  cases hknown : a.known.lookup unit with
  | some log =>
    refine ⟨a, load_of_known hknown, .refl a, ?_⟩
    intro found hfound
    rw [hknown, Except.ok.inj hfound]
  | none =>
    cases hfile : a.fileLog unit with
    | error e => exact ⟨a, load_of_fileLog_error hknown hfile, .refl a, by simp⟩
    | ok log =>
      have hunit := (fileLog_eq_ok_iff.mp hfile).2.1
      refine ⟨_, load_of_fileLog_ok hknown hfile, recalls_remember _ hknown hfile, ?_⟩
      intro found hfound
      simpa [hunit] using hfound

end Archive

end PropExport
