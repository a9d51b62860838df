import PropExport.Proofs.Session.Record

/-!
# Where entries come from

Every entry of a run was added by an attribute of some command, which met the ledger that the
entries before it had left. So a published line is the statement of a declaration of the unit,
translated with the symbols of its moment and followed by the binding of that declaration, and all
other bindings are alignments.
-/

namespace PropExport

/-- Each of the entries that a command records is among those that one attribute adds. -/
theorem Command.Records.exists_adds {keyword : String} {decls : Declarations} {command : Command}
    {ledger : Ledger} {added : List Entry} (h : command.Records keyword decls ledger added)
    {i : Nat} (hi : i < added.length) :
    ∃ before block after decl type attr, added = before ++ (block ++ after) ∧
      before.length ≤ i ∧ i < before.length + block.length ∧ command.Attaches decl attr ∧
      decls.find? decl = some type ∧
      attr.Adds keyword decls (ledger.replay before).symbols decl block := by
  induction h generalizing i with
  | nil => simp at hi
  | @cons ledger decl type attr block more hattach hfind hadds _ ih =>
    by_cases hblock : i < block.length
    · exact ⟨[], block, more, decl, type, attr, rfl, by simp, by simpa using hblock, hattach, hfind,
        hadds⟩
    · rw [List.length_append] at hi
      obtain ⟨before, block', after, decl', type', attr', rfl, hle, hlt, hattach', hfind',
        hadds'⟩ := ih (i := i - block.length) (by omega)
      refine ⟨block ++ before, block', after, decl', type', attr', by simp, ?_, ?_, hattach',
        hfind', ?_⟩
      · rw [List.length_append]; omega
      · rw [List.length_append]; omega
      · rwa [Ledger.replay_append]

namespace Session

variable {start : Session} {commands : List Command} {i : Nat}

private theorem runAll_append (s : Session) (earlier later : List Command) :
    s.runAll (earlier ++ later) = (s.runAll earlier).runAll later :=
  List.foldl_append

private theorem keyword_runAll (s : Session) (commands : List Command) :
    (s.runAll commands).keyword = s.keyword := by
  induction commands generalizing s with
  | nil => rfl
  | cons command commands ih => exact (ih (s.run command)).trans (s.steps_run command).keyword_eq

/-- A name that is declared after a run was declared before it or is declared by one of its
commands. -/
theorem exists_declare_of_find? {s : Session} {decl : String} {type : Expr}
    (h : (s.runAll commands).declarations.find? decl = some type) :
    s.declarations.find? decl = some type ∨
      ∃ value attributes, .declare decl type value attributes ∈ commands := by
  induction commands generalizing s with
  | nil => exact .inl h
  | cons command commands ih =>
    rcases ih h with hrun | ⟨value, attributes, hmem⟩
    · rcases (s.steps_run command).declarations with
        hsame | ⟨name, type', value, attributes, rfl, hadd⟩
      · exact .inl (hsame ▸ hrun)
      · rw [Declarations.find?_of_add? hadd] at hrun
        split at hrun
        · next hname =>
          cases hrun
          subst hname
          exact .inr ⟨value, attributes, by simp⟩
        · exact .inl hrun
    · exact .inr ⟨value, attributes, List.mem_cons_of_mem command hmem⟩

/-- The entry with an index is recorded by a command, after the commands before it. -/
structure WrittenBy (start : Session) (commands : List Command) (i : Nat) (earlier : List Command)
    (command : Command) : Prop where
  among : earlier ++ [command] <+: commands
  le : (start.runAll earlier).draft.entries.length ≤ i
  lt : i < (start.runAll (earlier ++ [command])).draft.entries.length

private theorem exists_writtenBy (hle : start.draft.entries.length ≤ i)
    (hlt : i < (start.runAll commands).draft.entries.length) :
    ∃ earlier command, start.WrittenBy commands i earlier command := by
  induction commands generalizing start with
  | nil => exact absurd hlt (Nat.not_lt.mpr hle)
  | cons command commands ih =>
    by_cases hfirst : i < (start.run command).draft.entries.length
    · exact ⟨[], command, ⟨commands, rfl⟩, hle, hfirst⟩
    · obtain ⟨earlier, found, hfound⟩ := ih (Nat.not_lt.mp hfirst) hlt
      exact ⟨command :: earlier, found, (List.prefix_cons_inj command).mpr hfound.among, hfound.le,
        hfound.lt⟩

/-- The origin of an entry: the attribute that added it as one of a block of entries, at a declared
name, in a command of the run. -/
structure Origin (start : Session) (commands : List Command) (i : Nat) where
  earlier : List Command
  command : Command
  decl : String
  type : Expr
  attr : Attribute
  before : List Entry
  block : List Entry
  after : List Entry
  writtenBy : start.WrittenBy commands i earlier command
  attaches : command.Attaches decl attr
  find?_eq : (start.runAll (earlier ++ [command])).declarations.find? decl = some type
  entries_eq : (start.runAll commands).draft.entries = before ++ (block ++ after)
  le : before.length ≤ i
  lt : i < before.length + block.length
  adds : attr.Adds start.keyword (start.runAll (earlier ++ [command])).declarations
    (start.draft.ledger.replay before).symbols decl block

/-- Every entry of a run has an origin. -/
theorem nonempty_origin (hstart : start.draft.entries = [])
    (hi : i < (start.runAll commands).draft.entries.length) :
    Nonempty (start.Origin commands i) := by
  obtain ⟨earlier, command, hwritten⟩ := exists_writtenBy (by simp [hstart]) hi
  have hrun : start.runAll (earlier ++ [command]) = (start.runAll earlier).run command :=
    runAll_append start earlier [command]
  -- the draft before the command, after it and after the commands behind it
  obtain ⟨past, hpast⟩ := start.extendsBy_runAll earlier
  obtain ⟨added, hrecords, hadded⟩ := ((start.runAll earlier).steps_run command).draft
  obtain ⟨rest, rfl⟩ := hwritten.among
  obtain ⟨more, hmore⟩ := (start.runAll (earlier ++ [command])).extendsBy_runAll rest
  have hpast_entries : (start.runAll earlier).draft.entries = past := by
    rw [hpast.entries_eq, hstart, List.nil_append]
  have hnow_entries : (start.runAll (earlier ++ [command])).draft.entries = past ++ added := by
    rw [hrun, hadded.entries_eq, hpast_entries]
  have hle := hwritten.le
  have hlt := hwritten.lt
  rw [hpast_entries] at hle
  rw [hnow_entries, List.length_append] at hlt
  obtain ⟨before, block, after, decl, type, attr, rfl, hge, hbound, hattach, hfind, hadds⟩ :=
    hrecords.exists_adds (i := i - past.length) (by omega)
  rw [← hrun] at hfind hadds
  rw [keyword_runAll, hpast.ledger_eq, ← Ledger.replay_append] at hadds
  refine ⟨⟨earlier, command, decl, type, attr, past ++ before, block, after ++ more, hwritten,
    hattach, hfind, ?_, ?_, ?_, hadds⟩⟩
  · rw [runAll_append, hmore.entries_eq, hnow_entries]
    simp
  · rw [List.length_append]; omega
  · rw [List.length_append]; omega

namespace Origin

/-- The place of the entry in its block. -/
theorem exists_index (o : start.Origin commands i) :
    ∃ k, i = o.before.length + k ∧ k < o.block.length :=
  ⟨i - o.before.length, by have := o.le; omega, by have := o.le; have := o.lt; omega⟩

/-- The entries of the block stand in the run one after the other. -/
theorem getElem?_eq (o : start.Origin commands i) {k : Nat} (hk : k < o.block.length) :
    (start.runAll commands).draft.entries[o.before.length + k]? = o.block[k]? := by
  rw [o.entries_eq, List.getElem?_append_right (by omega), Nat.add_sub_cancel_left,
    List.getElem?_append_left hk]

/-- The block is an alignment, or it is the statement of the declaration followed by its binding. -/
theorem block_eq (o : start.Origin commands i) :
    (∃ target, o.command.Attaches o.decl ⟨"align_dafny", [.str target]⟩ ∧
      o.block = [.bind o.decl target]) ∨
    ∃ target formula, o.command.Attaches o.decl ⟨"export_dafny", [.str target]⟩ ∧
      o.block = [.publish (formula.declaration start.keyword target), .bind o.decl target] ∧
      (start.runAll (o.earlier ++ [o.command])).declarations.isProposition o.type = true ∧
      Formula.ofExpr (start.draft.ledger.replay o.before).symbols o.type = .ok formula := by
  obtain ⟨earlier, command, decl, type, attr, before, block, after, _, hattach, hfind, _, _, _,
    hadds⟩ := o
  cases hadds with
  | align target => exact .inl ⟨target, hattach, rfl⟩
  | @publish target type' formula hfind' hprop hformula =>
    obtain rfl : type' = type := Option.some.inj (hfind'.symm.trans hfind)
    exact .inr ⟨target, formula, hattach, rfl, hprop, hformula⟩

/-- A published line is the first entry of its block. -/
theorem of_publish (o : start.Origin commands i) {line : String}
    (h : (start.runAll commands).draft.entries[i]? = some (.publish line)) :
    ∃ target formula, (start.runAll commands).draft.entries[i + 1]? = some (.bind o.decl target) ∧
      o.command.Attaches o.decl ⟨"export_dafny", [.str target]⟩ ∧
      (start.runAll (o.earlier ++ [o.command])).declarations.isProposition o.type = true ∧
      Formula.ofExpr
        (start.draft.ledger.replay ((start.runAll commands).draft.entries.take i)).symbols o.type =
          .ok formula ∧
      line = formula.declaration start.keyword target := by
  obtain ⟨k, hi, hk⟩ := o.exists_index
  have hentry := o.getElem?_eq hk
  rw [← hi, h] at hentry
  rcases o.block_eq with ⟨target, _, hblock⟩ | ⟨target, formula, hattach, hblock, hprop, hformula⟩
  · obtain rfl : k = 0 := by simpa [hblock] using hk
    simp [hblock] at hentry
  · have hk' : k < 2 := by simpa [hblock] using hk
    obtain rfl | rfl : k = 0 ∨ k = 1 := by omega
    · have htake : (start.runAll commands).draft.entries.take i = o.before := by
        rw [o.entries_eq, List.take_left' hi.symm]
      have hnext := o.getElem?_eq (k := 1) (by simp [hblock])
      rw [Nat.add_zero] at hi
      rw [← hi, hblock] at hnext
      exact ⟨target, formula, hnext, hattach, hprop, htake ▸ hformula,
        by simpa [hblock] using hentry⟩
    · simp [hblock] at hentry

/-- A binding that does not follow a published line is an alignment. -/
theorem of_bind (o : start.Origin commands i) {decl target : String}
    (h : (start.runAll commands).draft.entries[i]? = some (.bind decl target)) :
    o.decl = decl ∧
    ((∀ j line, i = j + 1 → (start.runAll commands).draft.entries[j]? ≠ some (.publish line)) →
      o.command.Attaches decl ⟨"align_dafny", [.str target]⟩) := by
  obtain ⟨k, hi, hk⟩ := o.exists_index
  have hentry := o.getElem?_eq hk
  rw [← hi, h] at hentry
  rcases o.block_eq with ⟨target', hattach, hblock⟩ | ⟨target', formula, _, hblock, _⟩
  · obtain rfl : k = 0 := by simpa [hblock] using hk
    obtain ⟨rfl, rfl⟩ : decl = o.decl ∧ target = target' := by simpa [hblock] using hentry
    exact ⟨rfl, fun _ => hattach⟩
  · have hk' : k < 2 := by simpa [hblock] using hk
    obtain rfl | rfl : k = 0 ∨ k = 1 := by omega
    · simp [hblock] at hentry
    · obtain ⟨rfl, rfl⟩ : decl = o.decl ∧ target = target' := by simpa [hblock] using hentry
      have hline := o.getElem?_eq (k := 0) (by simp [hblock])
      rw [Nat.add_zero, hblock] at hline
      exact ⟨rfl, fun hnone => absurd hline (hnone _ _ hi)⟩

end Origin

/-- Every line that a unit publishes is the statement of one of its declarations, which was a
proposition by the declarations of that moment, translated with the symbols of the imported units
and the entries before it; the binding of that declaration follows. Every binding is of a name that
the unit had declared, and comes from an alignment if it does not follow a line. -/
theorem runAll_provenance (keyword unit : String) (imports : List String) (imported : List UnitLog)
    (events : List Event) (commands : List Command) :
    let start : Session := { keyword, draft := { Draft.start unit imports imported with events } }
    let entries := (start.runAll commands).draft.entries
    (∀ i line, entries[i]? = some (.publish line) →
      ∃ earlier command decl target type formula,
        start.WrittenBy commands i earlier command ∧
        command.Attaches decl ⟨"export_dafny", [.str target]⟩ ∧
        entries[i + 1]? = some (.bind decl target) ∧
        (∃ value attributes, .declare decl type value attributes ∈ earlier ++ [command]) ∧
        (start.runAll (earlier ++ [command])).declarations.find? decl = some type ∧
        (start.runAll (earlier ++ [command])).declarations.isProposition type = true ∧
        Formula.ofExpr ((Ledger.merge imported).replay (entries.take i)).symbols type =
          .ok formula ∧
        line = formula.declaration keyword target) ∧
    (∀ i decl target, entries[i]? = some (.bind decl target) →
      ∃ earlier command, start.WrittenBy commands i earlier command ∧
        (∃ type value attributes, .declare decl type value attributes ∈ earlier ++ [command]) ∧
        ((∀ j line, i = j + 1 → entries[j]? ≠ some (.publish line)) →
          command.Attaches decl ⟨"align_dafny", [.str target]⟩)) := by
  intro start entries
  have horigin {i : Nat} {entry : Entry} (h : entries[i]? = some entry) :
      Nonempty (start.Origin commands i) :=
    nonempty_origin rfl (List.getElem?_eq_some_iff.mp h).1
  have hdeclared {i : Nat} (o : start.Origin commands i) :
      ∃ value attributes, .declare o.decl o.type value attributes ∈ o.earlier ++ [o.command] :=
    (exists_declare_of_find? o.find?_eq).resolve_left (by simp [start, Declarations.find?])
  constructor
  · intro i line hline
    obtain ⟨o⟩ := horigin hline
    obtain ⟨target, formula, hnext, hattach, hprop, hformula, hshape⟩ := o.of_publish hline
    exact ⟨o.earlier, o.command, o.decl, target, o.type, formula, o.writtenBy, hattach, hnext,
      hdeclared o, o.find?_eq, hprop, hformula, hshape⟩
  · intro i decl target hbind
    obtain ⟨o⟩ := horigin hbind
    obtain ⟨rfl, halign⟩ := o.of_bind hbind
    exact ⟨o.earlier, o.command, o.writtenBy, ⟨o.type, hdeclared o⟩, halign⟩

/-- A theorem is exported twice, with one of its symbols bound anew in between and an attribute that
fails. The other symbol is bound by an imported unit. -/
theorem runAll_provenance_rebound :
    let imported := [{ unit := "Base", entries := [.bind "add" "Add"] : UnitLog }]
    let start : Session :=
      { keyword := "axiom", draft := { Draft.start "Main" ["Base"] imported with events := [] } }
    let type := Expr.natEq (.app (.const "f") (.nat 1)) ((Expr.const "add").apply [.nat 2, .nat 3])
    let commands : List Command :=
      [.declare "f" (.pi .natType .natType) none
          [⟨"align_dafny", [.str "F"]⟩, ⟨"export_dafny", []⟩],
        .declare "sum" type none [⟨"export_dafny", [.str "Sum"]⟩],
        .annotate "f" [⟨"align_dafny", [.str "G"]⟩],
        .annotate "sum" [⟨"export_dafny", [.str "Again"]⟩]]
    let entries := (start.runAll commands).draft.entries
    (entries[1]? = some (.publish "axiom Sum : F(1) == Add(2, 3)") ∧
      entries[3]? = some (.bind "f" "G") ∧
      entries[4]? = some (.publish "axiom Again : G(1) == Add(2, 3)")) ∧
    (∃ earlier command, start.WrittenBy commands 3 earlier command ∧
      command.Attaches "f" ⟨"align_dafny", [.str "G"]⟩) ∧
    ∃ earlier command decl target type formula,
      start.WrittenBy commands 4 earlier command ∧ entries[5]? = some (.bind decl target) ∧
      (start.runAll (earlier ++ [command])).declarations.find? decl = some type ∧
      Formula.ofExpr ((Ledger.merge imported).replay (entries.take 4)).symbols type = .ok formula ∧
      "axiom Again : G(1) == Add(2, 3)" = formula.declaration "axiom" target := by
  intro imported start type commands entries
  have hsum : entries[1]? = some (.publish "axiom Sum : F(1) == Add(2, 3)") := by decide +kernel
  have hprevious : entries[2]? = some (.bind "sum" "Sum") := by decide +kernel
  have hrebound : entries[3]? = some (.bind "f" "G") := by decide +kernel
  have hagain : entries[4]? = some (.publish "axiom Again : G(1) == Add(2, 3)") := by decide +kernel
  -- from here on the commands need not be run again
  clear_value commands
  obtain ⟨hpublish, hbind⟩ := runAll_provenance "axiom" "Main" ["Base"] imported [] commands
  refine ⟨⟨hsum, hrebound, hagain⟩, ?_, ?_⟩
  · obtain ⟨earlier, command, hwritten, _, halign⟩ := hbind 3 _ _ hrebound
    refine ⟨earlier, command, hwritten, halign ?_⟩
    intro j line hj hline
    obtain rfl : j = 2 := by omega
    cases hprevious.symm.trans hline
  · obtain ⟨earlier, command, decl, target, type, formula, hwritten, _, hnext, _, hfind, _,
      hformula, hline⟩ := hpublish 4 _ hagain
    exact ⟨earlier, command, decl, target, type, formula, hwritten, hnext, hfind, hformula, hline⟩

end Session

end PropExport
