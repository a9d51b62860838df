import PropExport.Proofs.Results
import PropExport.Session

/-!
# What commands record

Everything that a session does to its draft is to add entries and to carry them out. What an
attribute adds is said once, in `Attribute.Adds`, and what a command may do at all in
`Session.Steps`. From it follows that the ledger of a draft is always that of the imported units
with the entries of the draft replayed.
-/

namespace PropExport

namespace Ledger

/-- Entries are replayed one after the other. -/
theorem replay_append (ledger : Ledger) (earlier later : List Entry) :
    ledger.replay (earlier ++ later) = (ledger.replay earlier).replay later :=
  List.foldl_append

/-- The last unit is replayed on top of the others. -/
theorem merge_concat (units : List UnitLog) (log : UnitLog) :
    merge (units ++ [log]) = (merge units).replay log.entries := by
  rw [merge, merge, replayUnits, replayUnits, List.foldl_append]
  rfl

end Ledger

/-- One draft comes from another by recording entries. -/
structure Draft.ExtendsBy (draft : Draft) (added : List Entry) (later : Draft) : Prop where
  unit_eq : later.unit = draft.unit
  imports_eq : later.imports = draft.imports
  entries_eq : later.entries = draft.entries ++ added
  ledger_eq : later.ledger = draft.ledger.replay added

namespace Draft

variable {draft later : Draft}

/-- A draft without new entries. -/
theorem ExtendsBy.refl (draft : Draft) : draft.ExtendsBy [] draft :=
  ⟨rfl, rfl, (List.append_nil _).symm, rfl⟩

/-- Entries that are recorded one after the other. -/
theorem ExtendsBy.trans {last : Draft} {added more : List Entry} (h : draft.ExtendsBy added later)
    (h' : later.ExtendsBy more last) : draft.ExtendsBy (added ++ more) last where
  unit_eq := h'.unit_eq.trans h.unit_eq
  imports_eq := h'.imports_eq.trans h.imports_eq
  entries_eq := by rw [h'.entries_eq, h.entries_eq, List.append_assoc]
  ledger_eq := by rw [h'.ledger_eq, h.ledger_eq, Ledger.replay_append]

/-- Noting an event records nothing. -/
theorem extendsBy_note (draft : Draft) (event : Event) : draft.ExtendsBy [] (draft.note event) :=
  ⟨rfl, rfl, (List.append_nil _).symm, rfl⟩

/-- Recording an entry adds it at the end and carries it out. -/
theorem extendsBy_record (draft : Draft) (entry : Entry) :
    draft.ExtendsBy [entry] (draft.record entry) :=
  ⟨rfl, rfl, rfl, rfl⟩

end Draft

/-- The entries that an attribute adds at a declaration where it succeeds. Aligning binds the
declaration; exporting publishes its statement, translated with the symbols of that moment, and
binds the declaration after it. -/
inductive Attribute.Adds (keyword : String) (decls : Declarations) (symbols : SymbolTable)
    (decl : String) : Attribute → List Entry → Prop
  | align (target : String) :
      Adds keyword decls symbols decl ⟨Kind.align.name, [.str target]⟩ [.bind decl target]
  | publish (target : String) {type : Expr} {formula : Formula} :
      decls.find? decl = some type → decls.isProposition type = true →
      Formula.ofExpr symbols type = .ok formula →
      Adds keyword decls symbols decl ⟨Kind.publish.name, [.str target]⟩
        [.publish (formula.declaration keyword target), .bind decl target]

namespace Attribute

variable {attr : Attribute} {kind : Kind} {target : String}

/-- An attribute is known exactly by its name. -/
theorem Kind.ofName?_eq_some_iff {name : String} :
    Kind.ofName? name = some kind ↔ name = kind.name := by
  constructor
  · intro h
    unfold Kind.ofName? at h
    split at h
    · next halign =>
      cases h
      exact halign
    · split at h
      · next hpublish =>
        cases h
        exact hpublish
      · cases h
  · rintro rfl
    cases kind <;> rfl

/-- The kind of an attribute is the one with its name. -/
theorem kind_eq_ok_iff : attr.kind = .ok kind ↔ attr.name = kind.name := by
  rw [← Kind.ofName?_eq_some_iff]
  unfold Attribute.kind
  cases Kind.ofName? attr.name with
  | none => simp
  | some found => simp

/-- An attribute has a target exactly if that is its only argument. -/
theorem target_eq_ok_iff : attr.target = .ok target ↔ attr.args = [.str target] := by
  unfold Attribute.target
  split
  · next s hargs => simp [hargs]
  · next hargs =>
    constructor
    · intro h
      cases h
    · intro h
      exact absurd h (hargs target)

/-- An attribute that is known and has one text as its argument. -/
theorem eq_of_kind_of_target (hkind : attr.kind = .ok kind) (htarget : attr.target = .ok target) :
    attr = ⟨kind.name, [.str target]⟩ := by
  rw [← kind_eq_ok_iff.mp hkind, ← target_eq_ok_iff.mp htarget]

end Attribute

namespace DraftM

variable {α β : Type} {x : DraftM α} {f : α → DraftM β}

/-- An operation that looks at a draft and leaves it as it is. -/
def Reads (x : DraftM α) : Prop :=
  ∀ draft, (x draft).2 = draft

/-- An operation that fails only where it has not changed the draft yet. -/
def FailsClean (x : DraftM α) : Prop :=
  ∀ draft error later, x draft = (.error error, later) → later = draft

/-- An operation that never fails. -/
def Succeeds (x : DraftM α) : Prop :=
  ∀ draft, ∃ v later, x draft = (.ok v, later)

private theorem reads_ofExcept (r : Except Attribute.Error α) : Reads (MonadExcept.ofExcept r) := by
  intro draft
  rw [ofExcept_apply]

private theorem Succeeds.failsClean (h : Succeeds x) : FailsClean x := by
  intro draft error later hfail
  obtain ⟨v, mid, hok⟩ := h draft
  cases hok.symm.trans hfail

/-- What comes after reading may fail as long as it has not changed the draft. -/
theorem FailsClean.bind_of_reads (hx : Reads x) (hf : ∀ v, FailsClean (f v)) :
    FailsClean (x >>= f) := by
  intro draft error later h
  have hread := hx draft
  rcases hfirst : x draft with ⟨e | v, mid⟩
  · rw [hfirst] at hread
    rw [bind_of_error hfirst] at h
    cases h
    exact hread
  · rw [hfirst] at hread
    rw [bind_of_ok hfirst] at h
    exact (hf v mid error later h).trans hread

/-- What comes after a change must not fail. -/
theorem FailsClean.bind_of_succeeds (hx : FailsClean x) (hf : ∀ v, Succeeds (f v)) :
    FailsClean (x >>= f) := by
  intro draft error later h
  rcases hfirst : x draft with ⟨e | v, mid⟩
  · rw [bind_of_error hfirst] at h
    cases h
    exact hx draft _ _ hfirst
  · rw [bind_of_ok hfirst] at h
    obtain ⟨w, last, hok⟩ := hf v mid
    cases hok.symm.trans h

end DraftM

namespace Draft

variable {draft later : Draft} {keyword decl target : String} {decls : Declarations}
  {attr : Attribute} {kind : Attribute.Kind}

/-- The formula that a declaration states in a draft. -/
def stated (draft : Draft) (decls : Declarations) (decl : String) :
    Except Attribute.Error Formula :=
  match decls.find? decl with
  | none => .error (.unknownDeclaration decl)
  | some type =>
    if decls.isProposition type then
      (Formula.ofExpr draft.ledger.symbols type).mapError .unsupported
    else .error (.notProposition decl)

/-- Translating a statement reads the draft and leaves it as it is. -/
theorem statement_apply (decls : Declarations) (decl : String) (draft : Draft) :
    statement decls decl draft = (draft.stated decls decl, draft) := by
  unfold statement stated
  cases decls.find? decl with
  | none => rfl
  | some type =>
    by_cases hprop : decls.isProposition type = true
    · simp only [hprop, if_true]
      rw [get_bind]
      cases Formula.ofExpr draft.ledger.symbols type <;> rfl
    · simp only [hprop]
      rfl

private theorem reads_statement (decls : Declarations) (decl : String) :
    DraftM.Reads (statement decls decl) := by
  intro draft
  rw [statement_apply]

/-- Exporting writes nothing before the statement was translated. -/
theorem failsClean_publish (keyword : String) (decls : Declarations) (decl target : String) :
    DraftM.FailsClean (publish keyword decls decl target) := by
  refine .bind_of_reads (reads_statement decls decl) fun formula => ?_
  exact DraftM.Succeeds.failsClean fun draft => ⟨(), _, rfl⟩

private theorem failsClean_handle (keyword : String) (decls : Declarations) (decl target : String)
    (kind : Attribute.Kind) : DraftM.FailsClean (handle keyword decls decl target kind) := by
  cases kind with
  | align => exact DraftM.Succeeds.failsClean fun draft => ⟨(), _, rfl⟩
  | publish => exact failsClean_publish keyword decls decl target

/-- An attribute that fails leaves the draft as it was. -/
theorem failsClean_applyAttribute (keyword : String) (decls : Declarations) (decl : String)
    (attr : Attribute) : DraftM.FailsClean (applyAttribute keyword decls decl attr) := by
  refine .bind_of_reads (DraftM.reads_ofExcept attr.kind) fun kind => ?_
  refine .bind_of_reads (DraftM.reads_ofExcept attr.target) fun target => ?_
  refine (failsClean_handle keyword decls decl target kind).bind_of_succeeds fun _ => ?_
  exact fun draft => ⟨kind, draft, rfl⟩

private theorem stated_eq_ok {formula : Formula} (h : draft.stated decls decl = .ok formula) :
    ∃ type, decls.find? decl = some type ∧ decls.isProposition type = true ∧
      Formula.ofExpr draft.ledger.symbols type = .ok formula := by
  unfold stated at h
  cases hfind : decls.find? decl with
  | none => simp [hfind] at h
  | some type =>
    by_cases hprop : decls.isProposition type = true
    · simp only [hfind, if_pos hprop] at h
      cases hformula : Formula.ofExpr draft.ledger.symbols type with
      | error e => rw [hformula] at h; cases h
      | ok found =>
        rw [hformula] at h
        cases h
        exact ⟨type, rfl, hprop, hformula⟩
    · simp [hfind, hprop] at h

/-- All that exporting does where it succeeds. -/
theorem publish_eq_ok (h : publish keyword decls decl target draft = (.ok (), later)) :
    ∃ type formula, decls.find? decl = some type ∧ decls.isProposition type = true ∧
      Formula.ofExpr draft.ledger.symbols type = .ok formula ∧
      draft.ExtendsBy [.publish (formula.declaration keyword target), .bind decl target] later := by
  obtain ⟨formula, mid, hstatement, hwrite⟩ := of_bind_eq_ok h
  rw [statement_apply] at hstatement
  obtain ⟨hstated, rfl⟩ := Prod.mk.inj hstatement
  obtain ⟨type, hfind, hprop, hformula⟩ := stated_eq_ok hstated
  cases hwrite
  refine ⟨type, formula, hfind, hprop, hformula, ?_⟩
  exact ((extendsBy_note draft _).trans (extendsBy_record _ _)).trans (extendsBy_record _ _)

/-- An attribute is carried out by the handler of its kind with its target. -/
theorem applyAttribute_of_target (hkind : attr.kind = .ok kind) (htarget : attr.target = .ok target)
    (draft : Draft) :
    applyAttribute keyword decls decl attr draft =
      (handle keyword decls decl target kind >>= fun _ => pure kind : DraftM _) draft := by
  rw [applyAttribute, ofExcept_bind_of_ok hkind, ofExcept_bind_of_ok htarget]

/-- All that an attribute does where it succeeds. -/
theorem applyAttribute_eq_ok
    (h : applyAttribute keyword decls decl attr draft = (.ok kind, later)) :
    ∃ added, attr.Adds keyword decls draft.ledger.symbols decl added ∧
      draft.ExtendsBy added later := by
  obtain ⟨found, hkind, hrest⟩ := of_ofExcept_bind_eq_ok h
  obtain ⟨target, htarget, hrest⟩ := of_ofExcept_bind_eq_ok hrest
  obtain ⟨⟨⟩, mid, hhandle, hlast⟩ := of_bind_eq_ok hrest
  cases hlast
  rw [Attribute.eq_of_kind_of_target hkind htarget]
  cases kind with
  | align =>
    cases hhandle
    exact ⟨_, .align target, (extendsBy_note draft _).trans (extendsBy_record _ _)⟩
  | publish =>
    obtain ⟨type, formula, hfind, hprop, hformula, hextends⟩ := publish_eq_ok hhandle
    exact ⟨_, .publish target hfind hprop hformula, hextends⟩

end Draft

namespace Command

/-- An attribute stands at a declaration in a command. -/
def Attaches (decl : String) (attr : Attribute) : Command → Prop
  | .declare name _ _ attributes => name = decl ∧ attr ∈ attributes
  | .annotate name attributes => name = decl ∧ attr ∈ attributes
  | _ => False

/-- The entries that the attributes of a command add one after the other. Each of them stands at a
name that is declared, and meets the ledger that the ones before it have left. -/
inductive Records (keyword : String) (decls : Declarations) (command : Command) :
    Ledger → List Entry → Prop
  | nil {ledger : Ledger} : Records keyword decls command ledger []
  | cons {ledger : Ledger} {decl : String} {type : Expr} {attr : Attribute}
      {added more : List Entry} :
      command.Attaches decl attr → decls.find? decl = some type →
      attr.Adds keyword decls ledger.symbols decl added →
      Records keyword decls command (ledger.replay added) more →
      Records keyword decls command ledger (added ++ more)

end Command

/-- A declared name is found with its type, and all others as before. -/
theorem Declarations.find?_of_add? {decls later : Declarations} {name : String} {type : Expr}
    (h : decls.add? name type = some later) (other : String) :
    later.find? other = if other = name then some type else decls.find? other := by
  unfold add? at h
  cases hfind : decls.find? name with
  | some found => simp [hfind] at h
  | none =>
    obtain rfl : { types := decls.types ++ [(name, type)] } = later := by simpa [hfind] using h
    unfold find? at hfind ⊢
    rw [List.lookup_append]
    by_cases hother : other = name
    · subst hother
      simp [hfind]
    · simp [hother, List.lookup_cons, beq_eq_false_iff_ne.mpr hother]

namespace Session

variable {s : Session}

section Fire

variable {draft : Draft} {decl : String} {attr : Attribute} {kind : Attribute.Kind}

/-- After an attribute that succeeds a session goes on with the draft that it left. -/
theorem fire_of_ok (status : Status) (attributes : List Attribute)
    (h : Draft.applyAttribute s.keyword s.declarations decl attr s.draft = (.ok kind, draft)) :
    s.fire decl status (attr :: attributes) =
      ({ s with draft }.note (.applied kind.name decl)).fire decl status.afterSuccess
        attributes := by
  rw [fire, h]

/-- After an attribute that fails a session goes on with the draft that it had. -/
theorem fire_of_error {error : Attribute.Error} (status : Status) (attributes : List Attribute)
    (h : Draft.applyAttribute s.keyword s.declarations decl attr s.draft = (.error error, draft)) :
    s.fire decl status (attr :: attributes) =
      (s.refuse decl attr.name error).fire decl .rejected attributes := by
  obtain rfl := Draft.failsClean_applyAttribute _ _ _ _ _ _ _ h
  rw [fire, h]

/-- Attributes leave the keyword and the declarations alone. -/
theorem fire_keeps (s : Session) (decl : String) (status : Status) (attributes : List Attribute) :
    (s.fire decl status attributes).keyword = s.keyword ∧
    (s.fire decl status attributes).declarations = s.declarations := by
  induction attributes generalizing s status with
  | nil => exact ⟨rfl, rfl⟩
  | cons attr attributes ih =>
    rcases happly : Draft.applyAttribute s.keyword s.declarations decl attr s.draft with
      ⟨error | kind, draft⟩
    · rw [fire_of_error status attributes happly]
      exact ih _ _
    · rw [fire_of_ok status attributes happly]
      exact ih _ _

/-- Attributes of a command at a declared name record what they add. -/
theorem fire_records (command : Command) {type : Expr} {attributes : List Attribute}
    (hattach : ∀ attr ∈ attributes, command.Attaches decl attr)
    (hfind : s.declarations.find? decl = some type) (status : Status) :
    ∃ added, command.Records s.keyword s.declarations s.draft.ledger added ∧
      s.draft.ExtendsBy added (s.fire decl status attributes).draft := by
  induction attributes generalizing s status with
  | nil => exact ⟨[], .nil, .refl s.draft⟩
  | cons attr attributes ih =>
    have hrest := fun other hother => hattach other (List.mem_cons_of_mem attr hother)
    rcases happly : Draft.applyAttribute s.keyword s.declarations decl attr s.draft with
      ⟨error | kind, draft⟩
    · rw [fire_of_error status attributes happly]
      exact ih (s := s.refuse decl attr.name error) hrest hfind .rejected
    · rw [fire_of_ok status attributes happly]
      obtain ⟨added, hadds, hextends⟩ := Draft.applyAttribute_eq_ok happly
      obtain ⟨more, hmore, hlater⟩ :=
        ih (s := { s with draft }.note (.applied kind.name decl)) hrest hfind status.afterSuccess
      refine ⟨added ++ more, .cons (hattach attr (by simp)) hfind hadds ?_, ?_⟩
      · rwa [← hextends.ledger_eq]
      · exact hextends.trans ((draft.extendsBy_note _).trans hlater)

end Fire

/-- What a command may do to a session: it may declare its name, and it records entries. -/
structure Steps (s : Session) (command : Command) (later : Session) : Prop where
  keyword_eq : later.keyword = s.keyword
  declarations : later.declarations = s.declarations ∨
    ∃ name type value attributes, command = .declare name type value attributes ∧
      s.declarations.add? name type = some later.declarations
  draft : ∃ added, command.Records s.keyword later.declarations s.draft.ledger added ∧
    s.draft.ExtendsBy added later.draft

/-- A command that records nothing. -/
theorem Steps.of_quiet {command : Command} {later : Session} (hkeyword : later.keyword = s.keyword)
    (hdeclarations : later.declarations = s.declarations)
    (hdraft : s.draft.ExtendsBy [] later.draft) : s.Steps command later :=
  ⟨hkeyword, .inl hdeclarations, [], .nil, hdraft⟩

/-- Refusing attributes adds diagnostics. -/
theorem foldl_refuse_eq (s : Session) (decl : String) (error : Attribute.Error)
    (attributes : List Attribute) :
    ∃ diagnostics, attributes.foldl (fun s attr => s.refuse decl attr.name error) s =
      { s with diagnostics } := by
  induction attributes generalizing s with
  | nil => exact ⟨s.diagnostics, rfl⟩
  | cons attr attributes ih => exact ih (s.refuse decl attr.name error)

/-- A declaration is refused if its name is declared, and its attributes are carried out
otherwise. -/
theorem run_declare (s : Session) (name : String) (type : Expr) (value : Option Expr)
    (attributes : List Attribute) :
    s.run (.declare name type value attributes) =
      match s.declarations.add? name type with
      | none => (s.note (.declaring name type value.isSome)).report (.duplicate s.draft.unit name)
      | some declarations =>
        { s.note (.declaring name type value.isSome) with declarations }.fire name .declared
          attributes :=
  rfl

private theorem steps_declare (s : Session) (name : String) (type : Expr) (value : Option Expr)
    (attributes : List Attribute) :
    s.Steps (.declare name type value attributes)
      (s.run (.declare name type value attributes)) := by
  have hnote := s.draft.extendsBy_note (.declaring name type value.isSome)
  rw [run_declare]
  cases hadd : s.declarations.add? name type with
  | none => exact .of_quiet rfl rfl hnote
  | some declarations =>
    let declaring := { s.note (.declaring name type value.isSome) with declarations }
    have hfind : declaring.declarations.find? name = some type := by
      rw [Declarations.find?_of_add? hadd, if_pos rfl]
    obtain ⟨hkeyword, hdeclarations⟩ := declaring.fire_keeps name .declared attributes
    obtain ⟨added, hrecords, hextends⟩ := fire_records (s := declaring)
      (.declare name type value attributes) (fun attr hattr => ⟨rfl, hattr⟩) hfind .declared
    refine ⟨hkeyword, .inr ⟨name, type, value, attributes, rfl, hdeclarations ▸ hadd⟩, added,
      ?_, ?_⟩
    · exact hdeclarations.symm ▸ hrecords
    · exact hnote.trans hextends

private theorem steps_annotate (s : Session) (decl : String) (attributes : List Attribute) :
    s.Steps (.annotate decl attributes) (s.run (.annotate decl attributes)) := by
  cases hfind : s.declarations.find? decl with
  | none =>
    obtain ⟨diagnostics, hrefuse⟩ :=
      foldl_refuse_eq s decl (.unknownDeclaration decl) attributes
    rw [run, hfind]
    dsimp only
    rw [hrefuse]
    exact .of_quiet rfl rfl (.refl s.draft)
  | some type =>
    obtain ⟨hkeyword, hdeclarations⟩ := s.fire_keeps decl .declared attributes
    obtain ⟨added, hrecords, hextends⟩ := fire_records (.annotate decl attributes)
      (fun attr hattr => ⟨rfl, hattr⟩) hfind .declared
    rw [run, hfind]
    dsimp only
    exact ⟨hkeyword, .inl hdeclarations, added, hdeclarations ▸ hrecords, hextends⟩

/-- Running a command. -/
theorem steps_run (s : Session) (command : Command) : s.Steps command (s.run command) := by
  cases command with
  | declare name type value attributes => exact steps_declare s name type value attributes
  | annotate decl attributes => exact steps_annotate s decl attributes
  | erase decl attr =>
    rw [run]
    cases s.declarations.find? decl with
    | none => exact .of_quiet rfl rfl (.refl s.draft)
    | some type => exact .of_quiet rfl rfl (.refl s.draft)
  | dump => exact .of_quiet rfl rfl (s.draft.extendsBy_note _)

/-- Running commands in order extends the draft. -/
theorem extendsBy_runAll (s : Session) (commands : List Command) :
    ∃ added, s.draft.ExtendsBy added (s.runAll commands).draft := by
  induction commands generalizing s with
  | nil => exact ⟨[], .refl s.draft⟩
  | cons command commands ih =>
    obtain ⟨added, _, hadded⟩ := (s.steps_run command).draft
    obtain ⟨more, hmore⟩ := ih (s.run command)
    exact ⟨added ++ more, hadded.trans hmore⟩

end Session

end PropExport
