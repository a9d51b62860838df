import PropExport.Proofs.Session.Record

/-!
# What is refused leaves no trace

The commands of a session can be cleaned of everything that is refused: declarations of declared
names, attributes at undeclared names, removals, and the attributes that fail. The cleaned commands
run without a diagnostic and do all that the original ones do. Both runs go side by side: after each
command the shorter one mirrors the longer one, so an attribute that succeeds in the longer one
meets the same ledger and the same declarations in the shorter one.
-/

namespace PropExport

namespace Draft

variable {draft later : Draft} {added : List Entry} {keyword decl : String} {decls : Declarations}
  {attr : Attribute}

/-- The attributes that succeed when attributes are carried out one after the other at a
declaration. -/
def succeeding (draft : Draft) (keyword : String) (decls : Declarations) (decl : String) :
    List Attribute → List Attribute
  | [] => []
  | attr :: attrs =>
    match applyAttribute keyword decls decl attr draft with
    | (.ok kind, later) =>
      attr :: (later.note (.applied kind.name decl)).succeeding keyword decls decl attrs
    | (.error _, later) => later.succeeding keyword decls decl attrs

private theorem stated_of_find? {type : Expr} {formula : Formula}
    (hfind : decls.find? decl = some type) (hprop : decls.isProposition type = true)
    (hformula : Formula.ofExpr draft.ledger.symbols type = .ok formula) :
    draft.stated decls decl = .ok formula := by
  rw [stated, hfind]
  dsimp only
  rw [if_pos hprop, hformula]
  rfl

/-- A declaration whose statement can be translated can be exported. -/
theorem exists_publish_eq_ok {type : Expr} {formula : Formula}
    (hfind : decls.find? decl = some type) (hprop : decls.isProposition type = true)
    (hformula : Formula.ofExpr draft.ledger.symbols type = .ok formula) (keyword target : String) :
    ∃ later, publish keyword decls decl target draft = (.ok (), later) ∧
      draft.ExtendsBy [.publish (formula.declaration keyword target), .bind decl target] later := by
  have hstatement : statement decls decl draft = (.ok formula, draft) := by
    rw [statement_apply, stated_of_find? hfind hprop hformula]
  rw [publish, bind_of_ok hstatement]
  exact ⟨_, rfl,
    ((extendsBy_note draft _).trans (extendsBy_record _ _)).trans (extendsBy_record _ _)⟩

/-- An attribute succeeds wherever there is something for it to add. -/
theorem exists_applyAttribute_eq_ok (h : attr.Adds keyword decls draft.ledger.symbols decl added) :
    ∃ kind later, applyAttribute keyword decls decl attr draft = (.ok kind, later) ∧
      draft.ExtendsBy added later := by
  cases h with
  | align target =>
    exact ⟨.align, _, rfl, (extendsBy_note draft _).trans (extendsBy_record _ _)⟩
  | publish target hfind hprop hformula =>
    obtain ⟨later, hpublish, hextends⟩ := exists_publish_eq_ok hfind hprop hformula keyword target
    refine ⟨.publish, later, ?_, hextends⟩
    rw [applyAttribute_of_target rfl rfl, handle, bind_of_ok hpublish]
    rfl

/-- Drafts that agree but for their events still agree after the same entries. -/
theorem ExtendsBy.agree {draft' later' : Draft} (h : draft.ExtendsBy added later)
    (h' : draft'.ExtendsBy added later') (hfreeze : draft'.freeze = draft.freeze)
    (hledger : draft'.ledger = draft.ledger) :
    later'.freeze = later.freeze ∧ later'.ledger = later.ledger := by
  obtain ⟨hunit, himports, hentries⟩ := UnitLog.mk.inj hfreeze
  refine ⟨?_, by rw [h.ledger_eq, h'.ledger_eq, hledger]⟩
  rw [freeze, freeze, h.unit_eq, h.imports_eq, h.entries_eq, h'.unit_eq, h'.imports_eq,
    h'.entries_eq, hunit, himports, hentries]

end Draft

namespace Session

/-- What is left of a command when all that is refused is taken out of it. -/
def accepted? (s : Session) : Command → Option Command
  | .declare name type value attributes =>
    (s.declarations.add? name type).map fun declarations =>
      .declare name type value <|
        (s.draft.note (.declaring name type value.isSome)).succeeding s.keyword declarations name
          attributes
  | .annotate decl attributes =>
    (s.declarations.find? decl).map fun _ =>
      .annotate decl (s.draft.succeeding s.keyword s.declarations decl attributes)
  | .erase _ _ => none
  | .dump => some .dump

/-- Commands without all that is refused when they are run in order. -/
def cleaned (s : Session) : List Command → List Command
  | [] => []
  | command :: commands => (s.accepted? command).toList ++ (s.run command).cleaned commands

/-- A session that has done all that another one has, and in which nothing was refused. -/
structure Mirrors (t s : Session) : Prop where
  keyword_eq : t.keyword = s.keyword
  log_eq : t.log = s.log
  ledger_eq : t.draft.ledger = s.draft.ledger
  declarations_eq : t.declarations = s.declarations
  dumped_eq : t.dumped = s.dumped
  diagnostics_eq : t.diagnostics = []

variable {s t : Session}

/-- The longer run may be told more, as long as it does nothing. -/
theorem Mirrors.refuse (h : t.Mirrors s) (decl attr : String) (error : Attribute.Error) :
    t.Mirrors (s.refuse decl attr error) :=
  { h with }

/-- One attribute that succeeds. It meets the same ledger in both runs, so it adds the same
entries. -/
theorem Mirrors.applyAttribute {decl : String} {attr : Attribute} {kind : Attribute.Kind}
    {draft : Draft} (h : t.Mirrors s)
    (happly : Draft.applyAttribute s.keyword s.declarations decl attr s.draft = (.ok kind, draft)) :
    ∃ kind' draft',
      Draft.applyAttribute t.keyword t.declarations decl attr t.draft = (.ok kind', draft') ∧
      ({ t with draft := draft' }.note (.applied kind'.name decl)).Mirrors
        ({ s with draft }.note (.applied kind.name decl)) := by
  obtain ⟨added, hadds, hextends⟩ := Draft.applyAttribute_eq_ok happly
  rw [← h.keyword_eq, ← h.declarations_eq, ← h.ledger_eq] at hadds
  obtain ⟨kind', draft', happly', hextends'⟩ := Draft.exists_applyAttribute_eq_ok hadds
  obtain ⟨hfreeze, hledger⟩ := hextends.agree hextends' h.log_eq h.ledger_eq
  exact ⟨kind', draft', happly', { h with log_eq := hfreeze, ledger_eq := hledger }⟩

/-- Carrying out only the attributes that succeed. -/
theorem Mirrors.fire (h : t.Mirrors s) (decl : String) (status status' : Status)
    (attributes : List Attribute) :
    (t.fire decl status' (s.draft.succeeding s.keyword s.declarations decl attributes)).Mirrors
      (s.fire decl status attributes) := by
  induction attributes generalizing s t status status' with
  | nil => exact { h with }
  | cons attr attributes ih =>
    rw [Draft.succeeding]
    rcases happly : Draft.applyAttribute s.keyword s.declarations decl attr s.draft with
      ⟨error | kind, draft⟩
    · rw [fire_of_error status attributes happly]
      obtain rfl := Draft.failsClean_applyAttribute _ _ _ _ _ _ _ happly
      exact ih (h.refuse decl attr.name error) .rejected status'
    · obtain ⟨kind', draft', happly', hmirrors⟩ := h.applyAttribute happly
      rw [fire_of_ok status attributes happly, fire_of_ok _ _ happly']
      exact ih hmirrors status.afterSuccess status'.afterSuccess

/-- A declaration is left out exactly if its name is declared. -/
theorem Mirrors.declare (h : t.Mirrors s) (name : String) (type : Expr) (value : Option Expr)
    (attributes : List Attribute) :
    (t.runAll (s.accepted? (.declare name type value attributes)).toList).Mirrors
      (s.run (.declare name type value attributes)) := by
  rw [run_declare, accepted?]
  cases hadd : s.declarations.add? name type with
  | none => exact { h with }
  | some declarations =>
    let declaring := { s.note (.declaring name type value.isSome) with declarations }
    have hdeclaring :
        { t.note (.declaring name type value.isSome) with declarations }.Mirrors declaring :=
      { h with declarations_eq := rfl }
    have hrun (attributes : List Attribute) : t.run (.declare name type value attributes) =
        { t.note (.declaring name type value.isSome) with declarations }.fire name .declared
          attributes := by
      rw [run_declare, h.declarations_eq, hadd]
    rw [Option.map_some, Option.toList_some, runAll, List.foldl_cons, List.foldl_nil, hrun]
    exact hdeclaring.fire name .declared .declared attributes

/-- Attributes are left out where their name is not declared. -/
theorem Mirrors.annotate (h : t.Mirrors s) (decl : String) (attributes : List Attribute) :
    (t.runAll (s.accepted? (.annotate decl attributes)).toList).Mirrors
      (s.run (.annotate decl attributes)) := by
  rw [run, accepted?]
  cases hfind : s.declarations.find? decl with
  | none =>
    obtain ⟨diagnostics, hrefuse⟩ := foldl_refuse_eq s decl (.unknownDeclaration decl) attributes
    dsimp only
    rw [hrefuse]
    exact { h with }
  | some type =>
    have hrun (attributes : List Attribute) :
        t.run (.annotate decl attributes) = t.fire decl .declared attributes := by
      rw [run, h.declarations_eq, hfind]
    rw [Option.map_some, Option.toList_some, runAll, List.foldl_cons, List.foldl_nil, hrun]
    exact h.fire decl .declared .declared attributes

/-- Running what is left of a command. -/
theorem Mirrors.run (h : t.Mirrors s) (command : Command) :
    (t.runAll (s.accepted? command).toList).Mirrors (s.run command) := by
  cases command with
  | declare name type value attributes => exact h.declare name type value attributes
  | annotate decl attributes => exact h.annotate decl attributes
  | erase decl attr =>
    rw [Session.run]
    cases s.declarations.find? decl with
    | none => exact h.refuse decl attr _
    | some type => exact h.refuse decl attr _
  | dump =>
    have hdumped : t.dumped ++ t.draft.ledger.exports = s.dumped ++ s.draft.ledger.exports := by
      rw [h.dumped_eq, h.ledger_eq]
    exact { h with dumped_eq := hdumped }

/-- Running the cleaned commands. -/
theorem Mirrors.runAll_cleaned (h : t.Mirrors s) (commands : List Command) :
    (t.runAll (s.cleaned commands)).Mirrors (s.runAll commands) := by
  induction commands generalizing s t with
  | nil => exact h
  | cons command commands ih =>
    rw [cleaned, runAll, List.foldl_append]
    exact ih (h.run command)

/-- **What is refused leaves no trace but a diagnostic.** From any imported units, running commands
cleaned of all that is refused gives the same unit, the same dumped lines, the same declarations and
the same ledger as running them as they are, and no diagnostics. -/
theorem runAll_without_refused (keyword unit : String) (imports : List String)
    (imported : List UnitLog) (events : List Event) (commands : List Command) :
    let start : Session := { keyword, draft := { Draft.start unit imports imported with events } }
    let original := start.runAll commands
    let clean := start.runAll (start.cleaned commands)
    clean.log = original.log ∧ clean.dumped = original.dumped ∧
    clean.declarations = original.declarations ∧ clean.draft.ledger = original.draft.ledger ∧
    clean.diagnostics = [] := by
  intro start original clean
  have hstart : start.Mirrors start := ⟨rfl, rfl, rfl, rfl, rfl, rfl⟩
  have h : clean.Mirrors original := hstart.runAll_cleaned commands
  exact ⟨h.log_eq, h.dumped_eq, h.declarations_eq, h.ledger_eq, h.diagnostics_eq⟩

-- A removal, a second declaration, an attribute that fails between two that do not, and a name
-- declared too late.
example :
    let start : Session := { keyword := "axiom", draft := Draft.start "Main" [] [] }
    let align (target : String) : Attribute := ⟨"align_dafny", [.str target]⟩
    start.cleaned
      [.annotate "f" [align "F"],
        .declare "f" .natType none [align "F", ⟨"export_dafny", [.str "F"]⟩, align "G"],
        .declare "f" .natType none [align "H"], .erase "f" "align_dafny", .dump] =
      [.declare "f" .natType none [align "F", align "G"], .dump] := by
  decide +kernel

end Session

end PropExport
