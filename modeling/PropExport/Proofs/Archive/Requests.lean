import PropExport.Proofs.Archive.Coherence

/-!
# Requests to an archive

Archives that are open on the same files and remember only what those hold cannot be told apart by
any sequence of requests, as long as the files of different units are apart: every request gives the
same in both and leaves both so. In particular nobody notices that compiling a unit was tried and
refused, although the archive may remember logs that it read on the way.
-/

namespace PropExport.Archive

/-- What an archive may be asked for. -/
inductive Request where
  | load (unit : String)
  | closure (imports : List String)
  | ledgerOf (unit : String)
  | store (log : UnitLog)
  | compile (keyword : String) (source : UnitSource)

/-- What an archive may answer. -/
inductive Answer where
  | log (log : UnitLog)
  | order (units : List String)
  | ledger (ledger : Ledger)
  | path (path : String)
  | report (report : Report)

/-- Carries out a request. -/
def Request.run : Request → ArchiveM Answer
  | .load unit => .log <$> Archive.load unit
  | .closure imports => .order <$> Archive.closure imports
  | .ledgerOf unit => .ledger <$> Archive.ledgerOf unit
  | .store log => .path <$> Archive.store log
  | .compile keyword source => .report <$> Archive.compile keyword source

/-- The archive after some requests. -/
def after (requests : List Request) (a : Archive) : Archive :=
  requests.foldl (fun a request => (request.run a).2) a

/-- What some requests come to one after the other, with the files that are there after each of
them. -/
def answers : List Request → Archive → List (Except Failure Answer × FileTree)
  | [], _ => []
  | request :: requests, a =>
    ((request.run a).1, (request.run a).2.files) :: answers requests (request.run a).2

private theorem map_apply {α β : Type} (f : α → β) (x : ArchiveM α) (a : Archive) :
    (f <$> x) a = ((x a).1.map f, (x a).2) := by
  rw [← bind_pure_comp]
  rcases hx : x a with ⟨e | v, b⟩
  · rw [bind_of_error hx]
    rfl
  · rw [bind_of_ok hx]
    rfl

private theorem recalls_load (unit : String) (a : Archive) : a.Recalls (load unit a).2 := by
  obtain ⟨b, hload, hrecalls, _⟩ := load_apply unit a
  rwa [hload]

section Coherent

variable {a b : Archive}

/-- What is remembered after looking things up is still what the files hold. -/
theorem Recalls.coherent (h : a.Recalls b) (hcoherent : a.Coherent) : b.Coherent := by
  intro unit log hlog
  rw [fileLog_of_reopened_eq h.reopened_eq]
  apply hcoherent.fileLog_of_stored
  rw [← h.stored_eq]
  exact stored_of_known hlog

/-- Coherent archives that are open on the same files give the same. -/
theorem Coherent.alike (ha : a.Coherent) (hb : b.Coherent) (h : b.reopened = a.reopened) :
    a.Alike b := by
  refine ⟨h, ?_⟩
  rw [← ha.alike_reopened.stored_eq, ← hb.alike_reopened.stored_eq, h]

end Coherent

namespace Request

/-- A request comes to the same in archives that give the same, and leaves the same files. -/
theorem run_eq {a b : Archive} (h : a.Alike b) (request : Request) :
    (request.run b).1 = (request.run a).1 ∧
    (request.run b).2.reopened = (request.run a).2.reopened := by
  have hlookup {a' b' : Archive} (ha : a.Recalls a') (hb : b.Recalls b') :
      b'.reopened = a'.reopened := by
    rw [ha.reopened_eq, hb.reopened_eq, h.reopened_eq]
  cases request with
  | load unit =>
    simp only [run, map_apply]
    refine ⟨?_, hlookup (recalls_load unit a) (recalls_load unit b)⟩
    exact congrArg (Except.map Answer.log) (congrFun h.stored_eq unit)
  | closure imports =>
    simp only [run, map_apply]
    exact ⟨congrArg _ (h.closure_eq imports), hlookup (recalls_closure rfl) (recalls_closure rfl)⟩
  | ledgerOf unit =>
    simp only [run, map_apply]
    exact ⟨congrArg _ (h.ledgerOf_eq unit),
      hlookup (ledgerOf_apply unit a).2 (ledgerOf_apply unit b).2⟩
  | store log =>
    obtain ⟨houtcome, hfiles⟩ := store_congr log h.reopened_eq
    simp only [run, map_apply]
    exact ⟨congrArg _ houtcome, hfiles⟩
  | compile keyword source =>
    obtain ⟨houtcome, hfiles⟩ := h.compile_eq keyword source
    simp only [run, map_apply]
    exact ⟨congrArg _ houtcome, hfiles⟩

/-- A request adds at most one log. -/
theorem adds_run (request : Request) (a : Archive) : ∃ new, a.Adds new (request.run a).2 := by
  cases request with
  | load unit =>
    rw [run, map_apply]
    exact ⟨none, (recalls_load unit a).adds (.refl _)⟩
  | closure imports =>
    rw [run, map_apply]
    exact ⟨none, (recalls_closure rfl).adds (.refl _)⟩
  | ledgerOf unit =>
    rw [run, map_apply]
    exact ⟨none, (ledgerOf_apply unit a).2.adds (.refl _)⟩
  | store log =>
    rw [run, map_apply]
    rcases store_cases log a with ⟨_, _, hstore, hstores⟩ | ⟨_, _, hstore, hdirs, _⟩
    · rw [hstore]
      exact ⟨some log, (Recalls.refl a).adds_stores hstores⟩
    · rw [hstore]
      exact ⟨none, (Recalls.refl a).adds hdirs⟩
  | compile keyword source =>
    rw [run, map_apply]
    obtain ⟨new, hadvances⟩ := advances_compile keyword source a
    exact ⟨new, hadvances.toAdds⟩

end Request

private theorem suffix_after (requests : List Request) (a : Archive) :
    (after requests a).suffix = a.suffix := by
  induction requests generalizing a with
  | nil => rfl
  | cons request requests ih =>
    obtain ⟨_, hadds⟩ := request.adds_run a
    exact (ih (request.run a).2).trans hadds.suffix_eq

/-- Files that are apart after some requests were apart before. -/
theorem separated_of_after {requests : List Request} {a : Archive}
    (h : (after requests a).Separated) : a.Separated := by
  induction requests generalizing a with
  | nil => exact h
  | cons request requests ih =>
    obtain ⟨_, hadds⟩ := request.adds_run a
    exact hadds.separated (ih h)

/-- As long as files are apart, requests come to the same in coherent archives that are open on the
same files. -/
theorem Coherent.answers_eq {a b : Archive} (ha : a.Coherent) (hb : b.Coherent)
    (h : b.reopened = a.reopened) {requests : List Request}
    (hapart : (after requests a).Separated) : answers requests b = answers requests a := by
  induction requests generalizing a b with
  | nil => rfl
  | cons request requests ih =>
    obtain ⟨houtcome, hreopened⟩ := request.run_eq (ha.alike hb h)
    obtain ⟨_, hadds⟩ := request.adds_run a
    obtain ⟨_, hadds'⟩ := request.adds_run b
    -- what the request remembers, it has put into a file of its own
    have hnext : (request.run a).2.Separated := separated_of_after hapart
    have ha' := hadds.coherent hnext ha
    have hb' := hadds'.coherent (hnext.of_reopened_eq hreopened) hb
    rw [answers, answers, houtcome, (reopened_eq_iff.mp hreopened).2.2, ih ha' hb' hreopened hapart]

/-- Compiling a unit that is refused before its log would be stored goes unnoticed. No file is
created or changed. What was remembered still is, and all that is remembered is what the file of a
unit with that name holds. As long as the files of different units are apart, every sequence of
requests then gets the answers and leaves the files that it would have without; where the suffix of
the files has no slash in it, they always are. -/
theorem compile_refused_unnoticed {keyword : String} {source : UnitSource} {a b : Archive}
    {e : Failure} (hcoherent : a.Coherent) (h : compile keyword source a = (.error e, b))
    (hbefore : e.isStoring = false) :
    b.files = a.files ∧
    (∀ unit log, a.known.lookup unit = some log → b.known.lookup unit = some log) ∧
    (∀ unit log, b.known.lookup unit = some log → a.fileLog unit = .ok log ∧ log.unit = unit) ∧
    (∀ requests, (after requests a).Separated → answers requests b = answers requests a) ∧
    ('/' ∉ a.suffix.toList → ∀ requests, answers requests b = answers requests a) := by
  have hprepared := prepared_of_compile_error keyword source a (congrArg Prod.fst h) hbefore
  have hrecalls : a.Recalls b := by
    have hrecalls := (compile_of_prepared_error keyword source a hprepared).2
    rwa [h] at hrecalls
  have hcoherent' := hrecalls.coherent hcoherent
  have hanswers (requests : List Request) (hapart : (after requests a).Separated) :
      answers requests b = answers requests a :=
    hcoherent.answers_eq hcoherent' hrecalls.reopened_eq hapart
  refine ⟨hrecalls.files_eq, fun _ _ => hrecalls.known_mono, ?_, hanswers, ?_⟩
  · intro unit log hlog
    have hfile := hcoherent' unit log hlog
    rw [fileLog_of_reopened_eq hrecalls.reopened_eq] at hfile
    exact ⟨hfile, (fileLog_eq_ok_iff.mp hfile).2.1⟩
  · intro hsuffix requests
    refine hanswers requests (separated_of_no_slash ?_)
    rwa [suffix_after]

/-- A unit with an import that is there and one that is not. -/
def unfinished : UnitSource where
  name := "next"
  imports := ["base", "none"]
  commands := []

/-- A compilation that fails at its second import remembers the first one, and no later request
shows it. -/
theorem compile_refused_unnoticed_after_reading :
    let a := openedOn "log" [["build"]] ["build", "base.log"]
    let requests : List Request :=
      [.load "base", .compile "axiom" dependent, .closure ["top"], .load "none"]
    a.Coherent ∧ ∃ e b, compile "axiom" unfinished a = (.error e, b) ∧ e.isStoring = false ∧
      b.known.length = 1 ∧
      ((answers requests a).map fun answer => (answer.1.toBool, answer.2.nodes.length)) =
        [(true, 2), (true, 3), (true, 3), (false, 3)] ∧
      answers requests b = answers requests a := by
  intro a requests
  have hcoherent : a.Coherent := coherent_reopened a
  have hfails : (compile "axiom" unfinished a).1.map (fun _ => ()) =
      .error (.notCompiled "none" "build/none.log") := by decide +kernel
  have hknown : (compile "axiom" unfinished a).2.known.length = 1 := by decide +kernel
  rcases hcompile : compile "axiom" unfinished a with ⟨e | report, b⟩
  · rw [hcompile] at hfails hknown
    obtain rfl := Except.error.inj hfails
    obtain ⟨_, _, _, _, hanswers⟩ := compile_refused_unnoticed hcoherent hcompile rfl
    exact ⟨hcoherent, _, b, rfl, rfl, hknown, by decide +kernel, hanswers (by decide) requests⟩
  · rw [hcompile] at hfails
    cases hfails

/-- Where all units have the same file, an archive that has read a log on the way to a refusal still
gives it after that file was written again. -/
theorem compile_refused_noticed_overlapping :
    let a :=
      openedOn "x/../log" [["build"], ["build", "base.x"], ["build", "top.x"]] ["build", "log"]
    let requests : List Request := [.compile "axiom" ⟨"top", [], []⟩, .load "base"]
    a.Coherent ∧ ∃ e b, compile "axiom" unfinished a = (.error e, b) ∧ e.isStoring = false ∧
      ((answers requests a).map fun answer => answer.1.toBool) = [true, false] ∧
      ((answers requests b).map fun answer => answer.1.toBool) = [true, true] := by
  intro a requests
  have hcoherent : a.Coherent := coherent_reopened a
  have hfails : (compile "axiom" unfinished a).1.map (fun _ => ()) =
      .error (.notCompiled "none" "build/none.x/../log") := by decide +kernel
  have hnoticed : ((answers requests (compile "axiom" unfinished a).2).map
      fun answer => answer.1.toBool) = [true, true] := by decide +kernel
  rcases hcompile : compile "axiom" unfinished a with ⟨e | report, b⟩
  · rw [hcompile] at hfails hnoticed
    obtain rfl := Except.error.inj hfails
    exact ⟨hcoherent, _, b, rfl, rfl, by decide +kernel, hnoticed⟩
  · rw [hcompile] at hfails
    cases hfails

end PropExport.Archive
