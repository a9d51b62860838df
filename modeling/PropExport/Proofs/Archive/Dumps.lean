import PropExport.CommandLine.Run
import PropExport.Proofs.Archive.Replay
import PropExport.Proofs.Session.Accounting

/-!
# Dumps

A dump command shows what is exported when it is met. Lines are only ever added, so what it shows is
a prefix of what is exported in the end, and the lines that are missing are those of the exports
that succeed after it. What is exported in the end is also what a replay of the compiled unit gives,
so a dump in the middle of a unit and one of the compiled unit differ in these lines only.
-/

namespace PropExport

namespace Text

private theorem lines_append (xs ys : List String) : lines (xs ++ ys) = lines xs ++ lines ys := by
  induction xs with
  | nil => exact String.empty_append.symm
  | cons x xs ih => simp only [List.cons_append, lines, ih, String.append_assoc]

/-- Texts that are laid out block by block. -/
theorem lines_flatMap {α : Type} (block : α → List String) (xs : List α) :
    lines (xs.flatMap block) = String.join (xs.map fun x => lines (block x)) := by
  induction xs with
  | nil => rfl
  | cons x xs ih => rw [List.flatMap_cons, lines_append, ih, List.map_cons, String.join_cons]

end Text

namespace Encounter

/-- Whether the command shows what is exported. -/
def isDump (e : Encounter) : Bool :=
  match e.command with
  | .dump => true
  | _ => false

private theorem command_of_isDump {e : Encounter} (h : e.isDump = true) : e.command = .dump := by
  unfold isDump at h
  split at h
  · assumption
  · cases h

private theorem dumped_of_isDump {e : Encounter} (h : e.isDump = true) :
    e.dumped = e.session.draft.ledger.exports := by
  rw [dumped, command_of_isDump h]

/-- Only dump commands show something. -/
theorem flatMap_dumped (met : List Encounter) :
    met.flatMap dumped = (met.filter isDump).flatMap dumped := by
  induction met with
  | nil => rfl
  | cons e met ih =>
    rw [List.flatMap_cons, ih]
    obtain ⟨s, command⟩ := e
    cases command <;> rfl

end Encounter

namespace Session

/-- What is exported stays exported. -/
theorem exports_prefix_runAll (s : Session) (commands : List Command) :
    s.draft.ledger.exports <+: (s.runAll commands).draft.ledger.exports := by
  obtain ⟨added, hextends⟩ := s.extendsBy_runAll commands
  rw [hextends.ledger_eq, Ledger.exports_replay]
  exact List.prefix_append _ _

/-- One line is added for each export that succeeds. -/
theorem Accounts.length_exports {s later : Session} {met : List Encounter}
    (h : s.Accounts met later) :
    later.draft.ledger.exports.length = s.draft.ledger.exports.length +
      (met.flatMap Encounter.firings).countP (Firing.succeeds .publish) := by
  obtain ⟨added, hextends, hadds⟩ := h.draft
  rw [hextends.ledger_eq, Ledger.exports_replay, List.length_append, hadds.lines_eq]

/-- A command of a run meets what the commands before it have left, and those behind it go on from
there. -/
theorem exists_of_encounters_eq_append {s : Session} {commands : List Command}
    {before after : List Encounter} {e : Encounter}
    (h : s.encounters commands = before ++ e :: after) :
    ∃ earlier later, e.session = s.runAll earlier ∧
      s.runAll commands = (e.session.run e.command).runAll later ∧
      after = (e.session.run e.command).encounters later := by
  induction before generalizing s commands with
  | nil =>
    cases commands with
    | nil => cases h
    | cons command commands =>
      obtain ⟨rfl, rfl⟩ := List.cons.inj h
      exact ⟨[], commands, rfl, rfl, rfl⟩
  | cons first before ih =>
    cases commands with
    | nil => cases h
    | cons command commands =>
      obtain ⟨_, hrest⟩ := List.cons.inj h
      obtain ⟨earlier, later, hsession, hfinal, hafter⟩ := ih hrest
      exact ⟨command :: earlier, later, hsession, hfinal, hafter⟩

/-- What is exported when a command is met lies between what is exported at the start and at the
end. -/
theorem exports_prefix_of_mem {s : Session} {commands : List Command} {e : Encounter}
    (h : e ∈ s.encounters commands) :
    s.draft.ledger.exports <+: e.session.draft.ledger.exports ∧
      e.session.draft.ledger.exports <+: (s.runAll commands).draft.ledger.exports := by
  obtain ⟨before, after, hmet⟩ := List.append_of_mem h
  obtain ⟨earlier, later, hsession, hfinal, _⟩ := exists_of_encounters_eq_append hmet
  constructor
  · rw [hsession]
    exact s.exports_prefix_runAll earlier
  · rw [hfinal]
    exact e.session.exports_prefix_runAll (e.command :: later)

/-- A dump command shows all that is exported at the start, and nothing that is not exported at the
end. -/
theorem dumped_prefix_of_mem {s : Session} {commands : List Command} {e : Encounter}
    (h : e ∈ (s.encounters commands).filter Encounter.isDump) :
    s.draft.ledger.exports <+: e.dumped ∧
      e.dumped <+: (s.runAll commands).draft.ledger.exports := by
  obtain ⟨hmem, hdump⟩ := List.mem_filter.mp h
  rw [Encounter.dumped_of_isDump hdump]
  exact exports_prefix_of_mem hmem

/-- From command to command no exported line is lost. -/
theorem pairwise_exports_grow (s : Session) (commands : List Command) :
    (s.encounters commands).Pairwise fun e e' =>
      e.session.draft.ledger.exports <+: e'.session.draft.ledger.exports := by
  induction commands generalizing s with
  | nil => exact .nil
  | cons command commands ih =>
    refine .cons (fun e he => ?_) (ih (s.run command))
    have hfirst : s.draft.ledger.exports <+: (s.run command).draft.ledger.exports :=
      s.exports_prefix_runAll [command]
    exact hfirst.trans (exports_prefix_of_mem he).1

/-- Later dump commands show no fewer lines. -/
theorem pairwise_length_dumped (s : Session) (commands : List Command) :
    ((s.encounters commands).filter Encounter.isDump).Pairwise fun e e' =>
      e.dumped.length ≤ e'.dumped.length := by
  rw [List.pairwise_filter]
  refine (s.pairwise_exports_grow commands).imp fun hgrows he he' => ?_
  rw [Encounter.dumped_of_isDump he, Encounter.dumped_of_isDump he']
  exact hgrows.length_le

/-- A dump command shows all that is exported in the end exactly if no export succeeds after it. -/
theorem dumped_eq_exports_iff {s : Session} {commands : List Command}
    {before after : List Encounter} {e : Encounter}
    (h : s.encounters commands = before ++ e :: after) (he : e.isDump = true) :
    e.dumped = (s.runAll commands).draft.ledger.exports ↔
      ∀ firing ∈ after.flatMap Encounter.firings, firing.succeeds .publish = false := by
  have hmem : e ∈ s.encounters commands := by
    rw [h]
    exact List.mem_append_right _ List.mem_cons_self
  have hgrows := (exports_prefix_of_mem hmem).2
  obtain ⟨_, later, _, hfinal, hafter⟩ := exists_of_encounters_eq_append h
  -- the dump itself exports nothing, so what is missing was exported by the commands behind it
  have hself : (e.session.run e.command).draft.ledger.exports = e.session.draft.ledger.exports := by
    rw [Encounter.command_of_isDump he]
    rfl
  have hlength := ((e.session.run e.command).accounts_runAll later).length_exports
  rw [← hfinal, ← hafter, hself] at hlength
  have hnone : (after.flatMap Encounter.firings).countP (Firing.succeeds .publish) = 0 ↔
      ∀ firing ∈ after.flatMap Encounter.firings, firing.succeeds .publish = false := by
    simp only [List.countP_eq_zero, Bool.not_eq_true]
  rw [Encounter.dumped_of_isDump he, ← hnone]
  constructor
  · intro heq
    rw [← heq] at hlength
    omega
  · intro hzero
    exact hgrows.eq_of_length (by omega)

end Session

namespace Archive

open ImportGraph

/-- A unit starts with the lines of the units that it imports. -/
theorem exports_opening (keyword : String) (source : UnitSource) (imported : List UnitLog) :
    (opening keyword source imported).draft.ledger.exports = imported.flatMap UnitLog.lines := by
  rw [List.flatMap_def, ← Ledger.exports_merge]
  rfl

/-- A report gives the lines that the session of the unit has shown. -/
theorem dumped_of_compile {keyword : String} {source : UnitSource} {report : Report}
    {a b mid : Archive} {units : List String} {imported : List UnitLog}
    (h : compile keyword source a = (.ok report, b))
    (hclosure : closure source.imports a = (.ok units, mid))
    (hlogs : logs units mid = (.ok imported, mid)) :
    report.dumped = (session keyword source imported).dumped := by
  have himported := (logs_apply units mid).symm.trans hlogs
  rw [compile_apply, hclosure] at h
  split at h
  · dsimp only at h
    split at h
    · cases h
    · split at h
      · cases h
      · cases h
        cases himported
        rfl
  · cases h

/-- Where writing the lines of a ledger to a file succeeds, the file holds them. -/
theorem read_of_writeDump {ledger : Ledger} {path : String} {a b : Archive}
    (h : writeDump ledger path a = (.ok (), b)) : b.files.read path = .ok ledger.dump := by
  -- whatever was done about the directory, the file is written next
  have hlast : ∃ mid, (do
      write path ledger.dump
      note [.wrote ledger.exports.length path] : ArchiveM Unit) mid = (.ok (), b) := by
    unfold writeDump at h
    cases hparent : Path.parent? path with
    | none =>
      rw [hparent] at h
      exact ⟨a, h⟩
    | some dir =>
      rw [hparent] at h
      dsimp only at h
      by_cases hdir : dir = ""
      · rw [if_pos hdir] at h
        exact ⟨a, h⟩
      · rw [if_neg hdir] at h
        obtain ⟨_, mid, _, hmid⟩ := of_bind_eq_ok h
        exact ⟨mid, hmid⟩
  obtain ⟨mid, hmid⟩ := hlast
  obtain ⟨_, written, hwrite, hnote⟩ := of_bind_eq_ok hmid
  rw [write_apply] at hwrite
  cases hfiles : mid.files.write path ledger.dump with
  | error e =>
    rw [hfiles] at hwrite
    cases hwrite
  | ok files =>
    rw [hfiles] at hwrite
    cases hwrite
    cases hnote
    exact FileTree.read_write_of_resolve_eq hfiles rfl

end Archive

namespace CommandLine

/-- Compiling a unit file prints what its dump commands show. -/
theorem compileFile_of_compile {keyword path : String} {source : UnitSource} {report : Report}
    {a b : Archive} (hread : Archive.readUnit path a = (.ok source, a))
    (hcompile : Archive.compile keyword source a = (.ok report, b)) (progress : Progress) :
    ∃ later, compileFile keyword path (progress, a) = (.ok (), later, b) ∧
      later.output = progress.output ++ Text.lines report.dumped := by
  have hsource : onArchive (Archive.readUnit path) (progress, a) = (.ok source, progress, a) := by
    rw [onArchive, hread]
  have hreport : onArchive (Archive.compile keyword source) (progress, a) =
      (.ok report, progress, b) := by
    rw [onArchive, hcompile]
  rw [compileFile, bind_of_ok hsource, bind_of_ok hreport]
  exact ⟨_, rfl, rfl⟩

end CommandLine

namespace Archive

open ImportGraph

/-- The dump commands of a compiled unit show prefixes of what a replay of the unit gives. Each of
them has the lines of all imported units, later ones have no fewer lines, and one has all lines
exactly if no export succeeds after it; then the text that is printed for it is the one that a dump
of the replayed ledger writes. The replay succeeds in the archive that compiled the unit, and in one
that is opened afresh exactly if no unit that it imports, directly or through others, has its file
where the new log was written. -/
theorem dumps_show_prefixes_of_replay {keyword : String} {source : UnitSource} {report : Report}
    {a b : Archive} (hcoherent : a.Coherent) (h : compile keyword source a = (.ok report, b)) :
    ∃ units mid imported ledger, closure source.imports a = (.ok units, mid) ∧
      logs units mid = (.ok imported, mid) ∧
      (ledgerOf source.name b).1 = .ok ledger ∧
      ((ledgerOf source.name b.reopened).1 = .ok ledger ↔
        ∀ unit, a.graph.Reaches source.imports unit →
          b.files.resolve (b.entryFile unit) ≠ b.files.resolve (b.entryFile source.name)) ∧
      ('/' ∉ b.suffix.toList → (ledgerOf source.name b.reopened).1 = .ok ledger) ∧
      let met := (opening keyword source imported).encounters source.commands
      let dumps := met.filter Encounter.isDump
      report.dumped = dumps.flatMap Encounter.dumped ∧
      (∀ e ∈ dumps, e.dumped <+: ledger.exports) ∧
      dumps.Pairwise (fun e e' => e.dumped.length ≤ e'.dumped.length) ∧
      (∀ e ∈ dumps, imported.flatMap UnitLog.lines <+: e.dumped) ∧
      (∀ before e after, met = before ++ e :: after → e.isDump = true →
        (e.dumped = ledger.exports ↔
          ∀ firing ∈ after.flatMap Encounter.firings, firing.succeeds .publish = false)) ∧
      (∀ path progress, readUnit path a = (.ok source, a) →
        ∃ later, CommandLine.compileFile keyword path (progress, a) = (.ok (), later, b) ∧
          later.output =
            progress.output ++ String.join (dumps.map fun e => Text.lines e.dumped)) ∧
      ∀ e ∈ dumps, e.dumped = ledger.exports → ∀ path c d,
        writeDump ledger path c = (.ok (), d) → d.files.read path = .ok (Text.lines e.dumped) := by
  obtain ⟨units, mid, imported, visits, hclosure, hlogs, hcompiled⟩ := compiled_of_compile h
  obtain ⟨hsame, hfresh, hslash⟩ := hcompiled.ledgerOf_session hcoherent
  let start := opening keyword source imported
  have hreported : report.dumped =
      ((start.encounters source.commands).filter Encounter.isDump).flatMap Encounter.dumped := by
    rw [dumped_of_compile h hclosure hlogs, session, ← Encounter.flatMap_dumped]
    exact (start.accounts_runAll source.commands).dumped
  refine ⟨units, mid, imported, _, hclosure, hlogs, hsame, hfresh, hslash, hreported, ?_,
    start.pairwise_length_dumped source.commands, ?_, ?_, ?_, ?_⟩
  · intro e he
    exact (Session.dumped_prefix_of_mem he).2
  · intro e he
    rw [← exports_opening keyword source imported]
    exact (Session.dumped_prefix_of_mem he).1
  · intro before e after hmet hdump
    exact Session.dumped_eq_exports_iff hmet hdump
  · intro path progress hread
    obtain ⟨later, hlater, houtput⟩ := CommandLine.compileFile_of_compile hread h progress
    refine ⟨later, hlater, ?_⟩
    rw [houtput, hreported, Text.lines_flatMap]
  · intro e he hall path c d hwrite
    rw [hall]
    exact read_of_writeDump hwrite

/-- A unit that shows what is exported before and after it exports a line of its own, and once more
after an export that fails. -/
def exporting : UnitSource where
  name := "top"
  imports := ["base"]
  commands := [.dump,
    .declare "same" (.natEq (.nat 1) (.nat 1)) none [⟨"export_dafny", [.str "B"]⟩], .dump,
    .annotate "same" [⟨"export_dafny", []⟩], .dump]

/-- The lines that are shown before and after an export that succeeds and one that fails. -/
theorem dumps_show_prefixes_of_replay_ownFiles :
    ownFiles.Coherent ∧ ∃ report b ledger, ∃ dumps : List Encounter,
      compile "axiom" exporting ownFiles = (.ok report, b) ∧
      report.dumped = ["axiom A: One == One", "axiom A: One == One", "axiom B : 1 == 1",
        "axiom A: One == One", "axiom B : 1 == 1"] ∧
      (ledgerOf "top" b.reopened).1 = .ok ledger ∧
      report.dumped = dumps.flatMap Encounter.dumped ∧
      ∀ e ∈ dumps, e.dumped <+: ledger.exports := by
  have hcoherent : ownFiles.Coherent := coherent_ofBase (by decide +kernel)
  have hdumped : (compile "axiom" exporting ownFiles).1.toOption.map Report.dumped =
      some ["axiom A: One == One", "axiom A: One == One", "axiom B : 1 == 1",
        "axiom A: One == One", "axiom B : 1 == 1"] := by decide +kernel
  have hsuffix : (compile "axiom" exporting ownFiles).2.suffix = "log" := by decide +kernel
  rcases hcompile : compile "axiom" exporting ownFiles with ⟨_ | report, b⟩
  · rw [hcompile] at hdumped
    cases hdumped
  · rw [hcompile] at hdumped hsuffix
    have hslash : '/' ∉ b.suffix.toList := by
      rw [hsuffix]
      decide
    obtain ⟨_, _, _, ledger, _, _, _, _, hfresh, hreport, hgrows, _⟩ :=
      dumps_show_prefixes_of_replay hcoherent hcompile
    exact ⟨hcoherent, report, b, ledger, _, rfl, Option.some.inj hdumped, hfresh hslash, hreport,
      hgrows⟩

/-- Where all units have the same file, a unit that has shown lines cannot be replayed from it. -/
theorem dumps_without_replay :
    overlapping.Coherent ∧ ∃ report b,
      compile "axiom" dependent overlapping = (.ok report, b) ∧
      report.dumped = ["axiom A: One == One"] ∧
      ∀ ledger, (ledgerOf "top" b.reopened).1 ≠ .ok ledger := by
  have hcoherent : overlapping.Coherent := coherent_ofBase (by decide +kernel)
  have hdumped : (compile "axiom" dependent overlapping).1.toOption.map Report.dumped =
      some ["axiom A: One == One"] := by decide +kernel
  have hreplay : (ledgerOf "top" (compile "axiom" dependent overlapping).2.reopened).1.toBool =
      false := by decide +kernel
  rcases hcompile : compile "axiom" dependent overlapping with ⟨_ | report, b⟩
  · rw [hcompile] at hdumped
    cases hdumped
  · rw [hcompile] at hdumped hreplay
    refine ⟨hcoherent, report, b, rfl, Option.some.inj hdumped, fun ledger hledger => ?_⟩
    rw [hledger] at hreplay
    cases hreplay

end Archive

end PropExport
