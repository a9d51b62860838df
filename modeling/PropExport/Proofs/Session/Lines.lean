import PropExport.Options.Basic
import PropExport.Proofs.Formula.Meaning
import PropExport.Proofs.Ledger.Merge
import PropExport.Proofs.Session.Provenance
import PropExport.Proofs.Text.Lines

/-!
# The lines of a dump

A dump is meant to show every exported declaration on a line of its own. Nothing looks for line
feeds, though: the keyword, the name of an export and the functions that its formula calls stand in
the line as they were given. So a dump shows the exported declarations exactly if none of these has
a line feed in it. Otherwise it shows more lines than there are declarations, and one of them may
look like a declaration that was never exported.
-/

namespace PropExport

open Text

namespace Term

/-- The text of a term breaks only where the name of a function does. -/
theorem isLine_print {t : Term} : IsLine t.print ↔ ∀ name ∈ t.names, IsLine name := by
  induction t using induct with
  | num n =>
    have hdigits : IsLine (toString n) := fun hfeed =>
      absurd (Numeral.isDigit_of_mem_toString hfeed) (by decide)
    simpa [print, names] using hdigits
  | add l r ihl ihr =>
    have hplus : IsLine " + " := by decide
    rw [print, isLine_append, isLine_append, ihl, ihr, names, List.forall_mem_append]
    simp only [hplus, and_true]
  | app fn args ih =>
    have hopening : IsLine "(" := by decide
    have hclosing : IsLine ")" := by decide
    have hargs : (∀ text ∈ args.map print, IsLine text) ↔
        ∀ name ∈ args.flatMap names, IsLine name := by
      rw [List.forall_mem_map, List.forall_mem_flatMap]
      exact forall₂_congr ih
    rw [print, printAll_eq, isLine_append, isLine_append, isLine_append,
      isLine_separated (by decide), hargs, names, namesAll_eq, List.forall_mem_cons]
    simp only [hopening, hclosing, and_true]

end Term

namespace Formula

private theorem isLine_print {f : Formula} : IsLine f.print ↔ ∀ name ∈ f.names, IsLine name := by
  induction f with
  | eq l r =>
    have hequals : IsLine " == " := by decide
    rw [print, isLine_append, isLine_append, Term.isLine_print, Term.isLine_print, names,
      List.forall_mem_append]
    simp only [hequals, and_true]
  | and l r ihl ihr =>
    have hboth : IsLine " && " := by decide
    rw [print, isLine_append, isLine_append, ihl, ihr, names, List.forall_mem_append]
    simp only [hboth, and_true]

/-- A declaration fits on a line exactly if all that it is put together from does. -/
theorem isLine_declaration {keyword name : String} {f : Formula} :
    IsLine (f.declaration keyword name) ↔
      IsLine keyword ∧ IsLine name ∧ ∀ fn ∈ f.names, IsLine fn := by
  have hblank : IsLine " " := by decide
  have hcolon : IsLine " : " := by decide
  rw [declaration, isLine_append, isLine_append, isLine_append, isLine_append, isLine_print]
  simp only [hblank, hcolon, and_true, and_assoc]

end Formula

/-- A binding that an attribute adds is that of its declaration to its argument. -/
theorem Attribute.Adds.of_bind_mem {keyword decl key target : String} {decls : Declarations}
    {symbols : SymbolTable} {attr : Attribute} {added : List Entry}
    (h : attr.Adds keyword decls symbols decl added) (hmem : Entry.bind key target ∈ added) :
    key = decl ∧ ∃ kind : Kind, attr = ⟨kind.name, [.str target]⟩ := by
  cases h with
  | align target' =>
    obtain ⟨rfl, rfl⟩ := Entry.bind.inj (List.mem_singleton.mp hmem)
    exact ⟨rfl, .align, rfl⟩
  | publish target' _ _ _ =>
    obtain ⟨rfl, rfl⟩ : key = decl ∧ target = target' := by simpa using hmem
    exact ⟨rfl, .publish, rfl⟩

namespace Session

variable {start : Session} {commands : List Command}

section Entries

variable (hentries : start.draft.entries = [])

include hentries

private theorem exists_origin_of_mem {entry : Entry}
    (h : entry ∈ (start.runAll commands).draft.entries) :
    ∃ i, (start.runAll commands).draft.entries[i]? = some entry ∧
      Nonempty (start.Origin commands i) := by
  obtain ⟨i, hi⟩ := List.getElem?_of_mem h
  exact ⟨i, hi, nonempty_origin hentries (List.getElem?_eq_some_iff.mp hi).1⟩

/-- Every target that a run records is the argument of an attribute in one of its commands. -/
theorem exists_attaches_of_bind_mem {decl target : String}
    (h : Entry.bind decl target ∈ (start.runAll commands).draft.entries) :
    ∃ command ∈ commands, ∃ kind : Attribute.Kind,
      command.Attaches decl ⟨kind.name, [.str target]⟩ := by
  obtain ⟨i, hi, ⟨o⟩⟩ := exists_origin_of_mem hentries h
  obtain ⟨k, hindex, hk⟩ := o.exists_index
  have hentry := o.getElem?_eq hk
  rw [← hindex, hi] at hentry
  obtain ⟨rfl, kind, hattr⟩ := o.adds.of_bind_mem (List.mem_of_getElem? hentry.symm)
  exact ⟨o.command, o.writtenBy.among.subset (by simp), kind, hattr ▸ o.attaches⟩

/-- Every line that a run publishes is put together from the keyword, the argument of an attribute
in one of its commands and a formula that was translated with the symbols of that moment. -/
theorem exists_declaration_of_publish_mem {line : String}
    (h : Entry.publish line ∈ (start.runAll commands).draft.entries) :
    ∃ command ∈ commands, ∃ decl target type formula i,
      command.Attaches decl ⟨Attribute.Kind.publish.name, [.str target]⟩ ∧
      Formula.ofExpr
        (start.draft.ledger.replay ((start.runAll commands).draft.entries.take i)).symbols type =
          .ok formula ∧
      line = formula.declaration start.keyword target := by
  obtain ⟨i, hi, ⟨o⟩⟩ := exists_origin_of_mem hentries h
  obtain ⟨target, formula, _, hattach, _, hformula, hline⟩ := o.of_publish hi
  exact ⟨o.command, o.writtenBy.among.subset (by simp), o.decl, target, o.type, formula, i, hattach,
    hformula, hline⟩

variable {imported : List UnitLog} (hledger : start.draft.ledger = Ledger.merge imported)

include hledger

/-- The exported lines after a run are those of the imported units and those that the run has
published. -/
theorem mem_exports_runAll {line : String} :
    line ∈ (start.runAll commands).draft.ledger.exports ↔
      (∃ log ∈ imported, Entry.publish line ∈ log.entries) ∨
        Entry.publish line ∈ (start.runAll commands).draft.entries := by
  obtain ⟨added, hadded⟩ := start.extendsBy_runAll commands
  rw [hadded.ledger_eq, hadded.entries_eq, hledger, hentries, List.nil_append,
    Ledger.exports_replay, Ledger.exports_merge, List.mem_append, Entry.mem_filterMap_line?,
    List.mem_flatten]
  simp only [List.mem_map, exists_exists_and_eq_and, UnitLog.lines, Entry.mem_filterMap_line?]

/-- Where the keyword, the targets of the imported units and the arguments of all attributes fit on
a line, so does every line that the run publishes. -/
theorem isLine_of_publish_mem (hkeyword : IsLine start.keyword)
    (htargets : ∀ log ∈ imported, ∀ decl target, Entry.bind decl target ∈ log.entries →
      IsLine target)
    (hattributes : ∀ command ∈ commands, ∀ decl, ∀ kind : Attribute.Kind, ∀ target,
      command.Attaches decl ⟨kind.name, [.str target]⟩ → IsLine target)
    {line : String} (hline : Entry.publish line ∈ (start.runAll commands).draft.entries) :
    IsLine line := by
  obtain ⟨command, hcommand, decl, target, type, formula, i, hattach, hformula, rfl⟩ :=
    exists_declaration_of_publish_mem hentries hline
  have htarget : IsLine target := hattributes command hcommand decl .publish target hattach
  refine Formula.isLine_declaration.mpr ⟨hkeyword, htarget, fun fn hfn => ?_⟩
  -- a function that is called was bound by an imported unit or earlier in the run
  obtain ⟨c, hfind⟩ := Formula.exists_find?_of_mem_names hformula hfn
  rw [hledger] at hfind
  rcases Ledger.find?_replay_eq_some hfind with hfind | hmem
  · rw [Ledger.merge_eq] at hfind
    have hmem := (Ledger.find?_replay_eq_some hfind).resolve_left (by rintro ⟨⟩)
    obtain ⟨log, hlog, hbind⟩ := List.mem_flatMap.mp hmem
    exact htargets log hlog c fn hbind
  · obtain ⟨earlier, hearlier, kind, hattach'⟩ :=
      exists_attaches_of_bind_mem hentries (List.mem_of_mem_take hmem)
    exact hattributes earlier hearlier c kind fn hattach'

end Entries

/-- If no line of the imported units has a line feed in it, a dump after a run shows the exported
lines exactly if the keyword, the name and the called functions of every export that the run has
made have none. It is enough that the keyword, the targets of the imported units and the arguments
of the attributes have none. In any case there is one line too many for every line feed in the
exported lines. -/
theorem runAll_dump_lines (options : Options) (unit : String) (imports : List String)
    (imported : List UnitLog) (events : List Event) (commands : List Command)
    (himported : ∀ log ∈ imported, ∀ line, Entry.publish line ∈ log.entries → IsLine line) :
    let start : Session :=
      { keyword := options.keyword, draft := { Draft.start unit imports imported with events } }
    let final := start.runAll commands
    let ledger := final.draft.ledger
    (cut ledger.dump = ledger.exports ↔
      ∀ target formula,
        Entry.publish (Formula.declaration options.keyword target formula) ∈ final.draft.entries →
        IsLine options.keyword ∧ IsLine target ∧ ∀ fn ∈ formula.names, IsLine fn) ∧
    (IsLine options.keyword →
      (∀ log ∈ imported, ∀ decl target, Entry.bind decl target ∈ log.entries → IsLine target) →
      (∀ command ∈ commands, ∀ decl, ∀ kind : Attribute.Kind, ∀ target,
        command.Attaches decl ⟨kind.name, [.str target]⟩ → IsLine target) →
      cut ledger.dump = ledger.exports) ∧
    (cut ledger.dump).length =
      ledger.exports.length + (ledger.exports.flatMap String.toList).count '\n' := by
  intro start final ledger
  have hentries : start.draft.entries = [] := rfl
  have hledger : start.draft.ledger = Ledger.merge imported := rfl
  have hcut : cut ledger.dump = ledger.exports ↔
      ∀ line, Entry.publish line ∈ final.draft.entries → IsLine line := by
    rw [Ledger.dump, cut_lines_eq_iff]
    constructor
    · exact fun h line hline => h line ((mem_exports_runAll hentries hledger).mpr (.inr hline))
    · intro h line hline
      rcases (mem_exports_runAll hentries hledger).mp hline with ⟨log, hlog, hmem⟩ | hmem
      · exact himported log hlog line hmem
      · exact h line hmem
  refine ⟨hcut.trans ⟨?_, ?_⟩, ?_, length_cut_lines ledger.exports⟩
  · exact fun h target formula hmem => Formula.isLine_declaration.mp (h _ hmem)
  · intro h line hline
    obtain ⟨_, _, _, target, _, formula, _, _, _, rfl⟩ :=
      exists_declaration_of_publish_mem hentries hline
    exact Formula.isLine_declaration.mpr (h target formula hline)
  · intro hkeyword htargets hattributes
    exact hcut.mpr fun line =>
      isLine_of_publish_mem hentries hledger hkeyword htargets hattributes

/-- A statement that calls a function of an imported unit and one that is aligned in the unit,
exported after a line of the imported unit. -/
theorem runAll_dump_lines_imported :
    let imported : List UnitLog :=
      [{ unit := "Base", entries := [.bind "f" "F", .publish "axiom Base : 1 == F(0)"] }]
    let start : Session :=
      { keyword := ({} : Options).keyword,
        draft := { Draft.start "Main" ["Base"] imported with events := [] } }
    let type := Expr.natEq (.app (.const "f") (.nat 1)) (.app (.const "g") (.nat 2))
    let commands : List Command :=
      [.declare "g" (.pi .natType .natType) none [⟨"align_dafny", [.str "G"]⟩],
        .declare "t" type none [⟨"export_dafny", [.str "T"]⟩]]
    let ledger := (start.runAll commands).draft.ledger
    (∀ log ∈ imported, ∀ line, Entry.publish line ∈ log.entries → IsLine line) ∧
    ledger.exports = ["axiom Base : 1 == F(0)", "axiom T : F(1) == G(2)"] ∧
    cut ledger.dump = ledger.exports := by
  intro imported start type commands ledger
  have hlines : ∀ log ∈ imported, ∀ line, Entry.publish line ∈ log.entries → IsLine line := by
    intro log hlog line hline
    obtain rfl := List.mem_singleton.mp hlog
    obtain rfl : line = "axiom Base : 1 == F(0)" := by simpa using hline
    decide
  have htargets : ∀ log ∈ imported, ∀ decl target, Entry.bind decl target ∈ log.entries →
      IsLine target := by
    intro log hlog decl target hbind
    obtain rfl := List.mem_singleton.mp hlog
    obtain ⟨_, rfl⟩ : decl = "f" ∧ target = "F" := by simpa using hbind
    decide
  have hattributes : ∀ command ∈ commands, ∀ decl, ∀ kind : Attribute.Kind, ∀ target,
      command.Attaches decl ⟨kind.name, [.str target]⟩ → IsLine target := by
    intro command hcommand decl kind target hattach
    rcases List.mem_pair.mp hcommand with rfl | rfl
    · obtain ⟨_, _, rfl⟩ : "g" = decl ∧ kind.name = "align_dafny" ∧ target = "G" := by
        simpa [Command.Attaches] using hattach
      decide
    · obtain ⟨_, _, rfl⟩ : "t" = decl ∧ kind.name = "export_dafny" ∧ target = "T" := by
        simpa [Command.Attaches] using hattach
      decide
  have hexports : ledger.exports = ["axiom Base : 1 == F(0)", "axiom T : F(1) == G(2)"] := by
    decide +kernel
  obtain ⟨_, hcut, _⟩ := runAll_dump_lines {} "Main" ["Base"] imported [] commands hlines
  exact ⟨hlines, hexports, hcut (by decide) htargets hattributes⟩

/-- A name with a line feed in it. The unit exports one declaration, that one is one, and the dump
shows two, of which the first one says that zero is one. -/
theorem runAll_dump_forged_line :
    let start : Session :=
      { keyword := ({} : Options).keyword, draft := { Draft.start "Main" [] [] with events := [] } }
    let commands : List Command :=
      [.declare "t" (.natEq (.nat 1) (.nat 1)) none
        [⟨"export_dafny", [.str "T : 0 == 1\naxiom U"]⟩]]
    let ledger := (start.runAll commands).draft.ledger
    ledger.exports = ["axiom T : 0 == 1\naxiom U : 1 == 1"] ∧
    cut ledger.dump = ["axiom T : 0 == 1", "axiom U : 1 == 1"] ∧
    cut ledger.dump ≠ ledger.exports := by
  decide +kernel

end Session

end PropExport
