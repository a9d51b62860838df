import Mathlib.Data.List.Forall2
import PropExport.Proofs.Ledger.Merge

/-!
# The account of a run

What a run leaves behind can be counted from the commands and what they meet. Every attribute that
is carried out adds its entries or a diagnostic, every other command that is refused adds its
diagnostics, and every command that carries out attributes adds one status, which depends on whether
an attribute failed and not on when. A dump command adds the lines that were exported before it.
-/

namespace PropExport

/-- An attribute that was carried out at a declaration, and what came of it. -/
structure Firing where
  decl : String
  attr : Attribute
  result : Except Attribute.Error Attribute.Kind

namespace Firing

/-- Whether an attribute of a kind succeeded. -/
def succeeds (kind : Attribute.Kind) (firing : Firing) : Bool :=
  firing.attr.name == kind.name && firing.result.isOk

/-- Whether an attribute failed. -/
def fails (firing : Firing) : Bool :=
  !firing.result.isOk

/-- What the author of a unit is told about an attribute that failed. -/
def diagnostic? (unit : String) (firing : Firing) : Option Diagnostic :=
  match firing.result with
  | .ok _ => none
  | .error error => some (.attribute unit firing.decl firing.attr.name error)

end Firing

/-- What comes of attributes that are carried out one after the other at a declaration: each of them
meets the draft that the ones before it have left. -/
def Draft.firings (draft : Draft) (keyword : String) (decls : Declarations) (decl : String) :
    List Attribute → List Firing
  | [] => []
  | attr :: attrs =>
    match applyAttribute keyword decls decl attr draft with
    | (.ok kind, later) =>
      ⟨decl, attr, .ok kind⟩ ::
        (later.note (.applied kind.name decl)).firings keyword decls decl attrs
    | (.error error, later) => ⟨decl, attr, .error error⟩ :: later.firings keyword decls decl attrs

/-- A command together with the session that it meets. -/
structure Encounter where
  session : Session
  command : Command

/-- The commands of a run, each with the session that the ones before it have left. -/
def Session.encounters (s : Session) : List Command → List Encounter
  | [] => []
  | command :: commands => ⟨s, command⟩ :: (s.run command).encounters commands

namespace Encounter

/-- Whether a name is declared when the command is met. -/
def knows (e : Encounter) (decl : String) : Bool :=
  (e.session.declarations.find? decl).isSome

/-- Whether the command declares a name that is declared already. -/
def isDuplicate (e : Encounter) : Bool :=
  match e.command with
  | .declare name _ _ _ => e.knows name
  | _ => false

/-- Whether the command removes an attribute. -/
def isRemoval (e : Encounter) : Bool :=
  match e.command with
  | .erase _ _ => true
  | _ => false

/-- The attributes that the command gives to a name that is not declared. -/
def unknown (e : Encounter) : List Attribute :=
  match e.command with
  | .annotate decl attributes => if e.knows decl then [] else attributes
  | _ => []

/-- The declaration at which the command carries out attributes, with these: a declaration that is
accepted, or one that was made before. -/
def target? (e : Encounter) : Option (String × List Attribute) :=
  match e.command with
  | .declare name _ _ attributes => if e.knows name then none else some (name, attributes)
  | .annotate decl attributes => if e.knows decl then some (decl, attributes) else none
  | _ => none

/-- The attributes that the command carries out, with what comes of them. -/
def firings (e : Encounter) : List Firing :=
  match e.command with
  | .declare name type value attributes =>
    match e.session.declarations.add? name type with
    | none => []
    | some declarations =>
      (e.session.draft.note (.declaring name type value.isSome)).firings e.session.keyword
        declarations name attributes
  | .annotate decl attributes =>
    if e.knows decl then
      e.session.draft.firings e.session.keyword e.session.declarations decl attributes
    else []
  | _ => []

/-- What the author of the unit is told about the command. -/
def diagnostics (e : Encounter) : List Diagnostic :=
  let unit := e.session.draft.unit
  match e.command with
  | .declare name _ _ _ =>
    if e.knows name then [.duplicate unit name] else e.firings.filterMap (Firing.diagnostic? unit)
  | .annotate decl attributes =>
    if e.knows decl then e.firings.filterMap (Firing.diagnostic? unit)
    else attributes.map fun attr => .attribute unit decl attr.name (.unknownDeclaration decl)
  | .erase decl attr =>
    [.attribute unit decl attr
      (if e.knows decl then Attribute.removal attr else .unknownDeclaration decl)]
  | .dump => []

/-- The lines that the command shows. -/
def dumped (e : Encounter) : List String :=
  match e.command with
  | .dump => e.session.draft.ledger.exports
  | _ => []

/-- Whether the command carries out its attributes. -/
def isFired (e : Encounter) : Bool :=
  e.target?.isSome

/-- The status that the command leaves at its declaration says whether it had attributes and whether
one of them failed. -/
def Leaves (e : Encounter) (item : String × Status) : Prop :=
  ∃ attributes, e.target? = some (item.1, attributes) ∧ e.firings.map Firing.attr = attributes ∧
    (item.2 = .declared ↔ attributes = []) ∧
    (item.2 = .rejected ↔ ∃ firing ∈ e.firings, firing.fails = true) ∧
    (item.2 = .accepted ↔ attributes ≠ [] ∧ ∀ firing ∈ e.firings, firing.fails = false)

end Encounter

namespace Draft

variable {draft later : Draft} {keyword decl : String} {decls : Declarations} {attr : Attribute}

private theorem firings_of_ok {kind : Attribute.Kind} (attributes : List Attribute)
    (h : applyAttribute keyword decls decl attr draft = (.ok kind, later)) :
    draft.firings keyword decls decl (attr :: attributes) =
      ⟨decl, attr, .ok kind⟩ ::
        (later.note (.applied kind.name decl)).firings keyword decls decl attributes := by
  rw [firings, h]

private theorem firings_of_error {error : Attribute.Error} (attributes : List Attribute)
    (h : applyAttribute keyword decls decl attr draft = (.error error, later)) :
    draft.firings keyword decls decl (attr :: attributes) =
      ⟨decl, attr, .error error⟩ :: draft.firings keyword decls decl attributes := by
  rw [firings, h]
  rw [failsClean_applyAttribute _ _ _ _ _ _ _ h]

/-- Every attribute that is carried out is accounted for, in order. -/
theorem map_attr_firings (draft : Draft) (keyword : String) (decls : Declarations) (decl : String)
    (attributes : List Attribute) :
    (draft.firings keyword decls decl attributes).map Firing.attr = attributes := by
  induction attributes generalizing draft with
  | nil => rfl
  | cons attr attributes ih =>
    rcases happly : applyAttribute keyword decls decl attr draft with ⟨error | kind, later⟩
    · rw [firings_of_error attributes happly, List.map_cons, ih]
    · rw [firings_of_ok attributes happly, List.map_cons, ih]

end Draft

namespace Firing

/-- Entries that attributes may have added: one for each alignment, and two for each export, of
which one is a line. -/
structure Adds (fired : List Firing) (added : List Entry) : Prop where
  length_eq : added.length =
    fired.countP (succeeds .align) + 2 * fired.countP (succeeds .publish)
  lines_eq : (added.filterMap Entry.line?).length = fired.countP (succeeds .publish)

/-- No attributes add no entries. -/
theorem Adds.nil : Adds [] [] :=
  ⟨rfl, rfl⟩

/-- Attributes add their entries one after the other. -/
theorem Adds.append {fired more : List Firing} {added further : List Entry} (h : Adds fired added)
    (h' : Adds more further) : Adds (fired ++ more) (added ++ further) := by
  obtain ⟨hlength, hlines⟩ := h
  obtain ⟨hlength', hlines'⟩ := h'
  constructor
  · simp only [List.length_append, List.countP_append]
    omega
  · simp only [List.filterMap_append, List.length_append, List.countP_append]
    omega

/-- An attribute that fails adds nothing. -/
theorem adds_error (decl : String) (attr : Attribute) (error : Attribute.Error) :
    Adds [⟨decl, attr, .error error⟩] [] := by
  have hfalse (kind : Attribute.Kind) : succeeds kind ⟨decl, attr, .error error⟩ = false :=
    Bool.and_false _
  constructor <;> simp [hfalse]

/-- An attribute that succeeds adds the entries of its kind. -/
theorem adds_ok {keyword decl : String} {decls : Declarations} {symbols : SymbolTable}
    {attr : Attribute} {added : List Entry} (h : attr.Adds keyword decls symbols decl added)
    (kind : Attribute.Kind) : Adds [⟨decl, attr, .ok kind⟩] added := by
  cases h with
  | align target => exact ⟨rfl, rfl⟩
  | publish target _ _ _ => exact ⟨rfl, rfl⟩

private theorem length_filterMap_diagnostic? (unit : String) (fired : List Firing) :
    (fired.filterMap (diagnostic? unit)).length = fired.countP fails := by
  induction fired with
  | nil => rfl
  | cons firing fired ih =>
    obtain ⟨decl, attr, error | kind⟩ := firing
    · have hfails : fails ⟨decl, attr, .error error⟩ = true := rfl
      rw [List.countP_cons_of_pos hfails, ← ih]
      rfl
    · have hfails : ¬ fails ⟨decl, attr, .ok kind⟩ = true := Bool.false_ne_true
      rw [List.countP_cons_of_neg hfails, ← ih]
      rfl

/-- The status after some attributes, which does not depend on their order. -/
def statusAfter (status : Status) (fired : List Firing) : Status :=
  if fired.any fails then .rejected
  else if fired.isEmpty then status
  else status.afterSuccess

private theorem statusAfter_ok (status : Status) (decl : String) (attr : Attribute)
    (kind : Attribute.Kind) (fired : List Firing) :
    statusAfter status (⟨decl, attr, .ok kind⟩ :: fired) =
      statusAfter status.afterSuccess fired := by
  have hfails : fails ⟨decl, attr, .ok kind⟩ = false := rfl
  have htwice : status.afterSuccess.afterSuccess = status.afterSuccess := by cases status <;> rfl
  simp only [statusAfter, List.any_cons, hfails, Bool.false_or, List.isEmpty_cons, htwice]
  simp

private theorem statusAfter_error (status : Status) (decl : String) (attr : Attribute)
    (error : Attribute.Error) (fired : List Firing) :
    statusAfter status (⟨decl, attr, .error error⟩ :: fired) = statusAfter .rejected fired := by
  have hfails : fails ⟨decl, attr, .error error⟩ = true := rfl
  have hsticky : Status.rejected.afterSuccess = .rejected := rfl
  simp [statusAfter, hfails, hsticky]

end Firing

namespace Session

/-- What a session has added to another one by carrying out attributes at a declaration. -/
structure Fires (s : Session) (decl : String) (status : Status) (fired : List Firing)
    (later : Session) : Prop where
  draft : ∃ added, s.draft.ExtendsBy added later.draft ∧ Firing.Adds fired added
  diagnostics :
    later.diagnostics = s.diagnostics ++ fired.filterMap (Firing.diagnostic? s.draft.unit)
  statuses : later.statuses = s.statuses ++ [(decl, Firing.statusAfter status fired)]
  dumped : later.dumped = s.dumped

private theorem fires_fire (s : Session) (decl : String) (status : Status)
    (attributes : List Attribute) :
    s.Fires decl status (s.draft.firings s.keyword s.declarations decl attributes)
      (s.fire decl status attributes) := by
  induction attributes generalizing s status with
  | nil => exact ⟨⟨[], .refl _, .nil⟩, (List.append_nil _).symm, rfl, rfl⟩
  | cons attr attributes ih =>
    rcases happly : Draft.applyAttribute s.keyword s.declarations decl attr s.draft with
      ⟨error | kind, later⟩
    · rw [fire_of_error status attributes happly, Draft.firings_of_error attributes happly]
      obtain ⟨⟨added, hextends, hadds⟩, hdiagnostics, hstatuses, hdumped⟩ :=
        ih (s.refuse decl attr.name error) .rejected
      refine ⟨⟨added, hextends, (Firing.adds_error decl attr error).append hadds⟩, ?_, ?_, hdumped⟩
      · rw [hdiagnostics, refuse, report, List.append_assoc]
        rfl
      · rw [hstatuses, Firing.statusAfter_error]
        rfl
    · obtain ⟨added, hadds, hextends⟩ := Draft.applyAttribute_eq_ok happly
      rw [fire_of_ok status attributes happly, Draft.firings_of_ok attributes happly]
      obtain ⟨⟨more, hmore, hfurther⟩, hdiagnostics, hstatuses, hdumped⟩ :=
        ih ({ s with draft := later }.note (.applied kind.name decl)) status.afterSuccess
      have hall : s.draft.ExtendsBy (added ++ more) _ :=
        hextends.trans ((later.extendsBy_note _).trans hmore)
      refine ⟨⟨added ++ more, hall, (Firing.adds_ok hadds kind).append hfurther⟩, ?_, ?_, hdumped⟩
      · rw [hdiagnostics, ← hextends.unit_eq]
        rfl
      · rw [hstatuses, Firing.statusAfter_ok]
        rfl

end Session

namespace Encounter

/-- The status after the attributes of a command. -/
theorem leaves_statusAfter {e : Encounter} {decl : String} {attributes : List Attribute}
    (htarget : e.target? = some (decl, attributes))
    (hattrs : e.firings.map Firing.attr = attributes) :
    e.Leaves (decl, Firing.statusAfter .declared e.firings) := by
  have hnil : attributes = [] ↔ e.firings = [] := by rw [← hattrs, List.map_eq_nil_iff]
  refine ⟨attributes, htarget, hattrs, ?_⟩
  by_cases hfails : ∃ firing ∈ e.firings, firing.fails = true
  · have hany : e.firings.any Firing.fails = true := List.any_eq_true.mpr hfails
    obtain ⟨firing, hmem, hfiring⟩ := hfails
    have hne : attributes ≠ [] := fun hempty => List.ne_nil_of_mem hmem (hnil.mp hempty)
    rw [Firing.statusAfter, if_pos hany]
    refine ⟨by simp [hne], by simpa using ⟨firing, hmem, hfiring⟩, ?_⟩
    simp only [reduceCtorEq, false_iff, not_and]
    intro _ hall
    exact Bool.false_ne_true ((hall firing hmem).symm.trans hfiring)
  · have hany : ¬ e.firings.any Firing.fails = true := fun hany => hfails (List.any_eq_true.mp hany)
    have hall : ∀ firing ∈ e.firings, firing.fails = false := by
      intro firing hmem
      exact Bool.eq_false_iff.mpr fun hfiring => hfails ⟨firing, hmem, hfiring⟩
    rw [Firing.statusAfter, if_neg hany]
    by_cases hempty : e.firings = []
    · simp [hempty, hnil.mpr hempty]
    · have hne : attributes ≠ [] := fun h => hempty (hnil.mp h)
      simpa [hempty, hne, Status.afterSuccess] using hall

/-- A declaration is refused exactly if its name is declared already. -/
theorem knows_eq_isNone_add? (e : Encounter) (name : String) (type : Expr) :
    e.knows name = (e.session.declarations.add? name type).isNone := by
  unfold knows Declarations.add?
  cases e.session.declarations.find? name <;> rfl

/-- One diagnostic for each declaration of a declared name, for each attribute that fails or stands
at a name that is not declared, and for each removal. -/
theorem length_diagnostics (e : Encounter) :
    e.diagnostics.length =
      [e].countP isDuplicate + e.firings.countP Firing.fails + e.unknown.length +
      [e].countP isRemoval := by
  obtain ⟨s, command⟩ := e
  cases command with
  | declare name type value attributes =>
    have hknows := knows_eq_isNone_add? ⟨s, .declare name type value attributes⟩ name type
    cases hadd : s.declarations.add? name type with
    | none =>
      rw [hadd, Option.isNone_none] at hknows
      simp [diagnostics, isDuplicate, isRemoval, unknown, firings, hknows, hadd]
    | some declarations =>
      rw [hadd, Option.isNone_some] at hknows
      simp [diagnostics, isDuplicate, isRemoval, unknown, hknows,
        Firing.length_filterMap_diagnostic?]
  | annotate decl attributes =>
    cases hknows : knows ⟨s, .annotate decl attributes⟩ decl with
    | false => simp [diagnostics, isDuplicate, isRemoval, unknown, firings, hknows]
    | true =>
      simp [diagnostics, isDuplicate, isRemoval, unknown, hknows,
        Firing.length_filterMap_diagnostic?]
  | erase decl attr => simp [diagnostics, isDuplicate, isRemoval, unknown, firings]
  | dump => simp [diagnostics, isDuplicate, isRemoval, unknown, firings]

end Encounter

namespace Session

/-- What a session has added to another one by running commands. -/
structure Accounts (s : Session) (met : List Encounter) (later : Session) : Prop where
  draft : ∃ added, s.draft.ExtendsBy added later.draft ∧
    Firing.Adds (met.flatMap Encounter.firings) added
  diagnostics : later.diagnostics = s.diagnostics ++ met.flatMap Encounter.diagnostics
  statuses : ∃ added, later.statuses = s.statuses ++ added ∧
    List.Forall₂ Encounter.Leaves (met.filter Encounter.isFired) added
  dumped : later.dumped = s.dumped ++ met.flatMap Encounter.dumped

/-- Running no commands. -/
theorem Accounts.refl (s : Session) : s.Accounts [] s where
  draft := ⟨[], .refl _, .nil⟩
  diagnostics := (List.append_nil _).symm
  statuses := ⟨[], (List.append_nil _).symm, .nil⟩
  dumped := (List.append_nil _).symm

/-- Running commands one after the other. -/
theorem Accounts.trans {s mid later : Session} {met more : List Encounter} (h : s.Accounts met mid)
    (h' : mid.Accounts more later) : s.Accounts (met ++ more) later := by
  obtain ⟨entries, hentries, hadds⟩ := h.draft
  obtain ⟨entries', hentries', hadds'⟩ := h'.draft
  obtain ⟨added, hadded, hleaves⟩ := h.statuses
  obtain ⟨added', hadded', hleaves'⟩ := h'.statuses
  refine ⟨⟨entries ++ entries', hentries.trans hentries', ?_⟩, ?_, ⟨added ++ added', ?_, ?_⟩, ?_⟩
  · rw [List.flatMap_append]
    exact hadds.append hadds'
  · rw [h'.diagnostics, h.diagnostics, List.flatMap_append, List.append_assoc]
  · rw [hadded', hadded, List.append_assoc]
  · rw [List.filter_append]
    exact List.rel_append hleaves hleaves'
  · rw [h'.dumped, h.dumped, List.flatMap_append, List.append_assoc]

/-- A command that carries out attributes. -/
theorem Fires.accounts {s t later : Session} {e : Encounter} {decl : String}
    {attributes : List Attribute} (h : t.Fires decl .declared e.firings later)
    (htarget : e.target? = some (decl, attributes))
    (hattrs : e.firings.map Firing.attr = attributes)
    (hdiagnostics : e.diagnostics = e.firings.filterMap (Firing.diagnostic? t.draft.unit))
    (hdumped : e.dumped = []) (hdraft : s.draft.ExtendsBy [] t.draft)
    (htold : t.diagnostics = s.diagnostics) (hstatuses : t.statuses = s.statuses)
    (hshown : t.dumped = s.dumped) : s.Accounts [e] later := by
  have hfired : e.isFired = true := by rw [Encounter.isFired, htarget, Option.isSome_some]
  obtain ⟨added, hextends, hadds⟩ := h.draft
  refine ⟨⟨added, hdraft.trans hextends, ?_⟩, ?_,
    ⟨[(decl, Firing.statusAfter .declared e.firings)], ?_, ?_⟩, ?_⟩
  · rwa [List.flatMap_singleton]
  · rw [h.diagnostics, htold, List.flatMap_singleton, hdiagnostics]
  · rw [h.statuses, hstatuses]
  · rw [List.filter_singleton, hfired]
    exact .cons (Encounter.leaves_statusAfter htarget hattrs) .nil
  · rw [h.dumped, hshown, List.flatMap_singleton, hdumped, List.append_nil]

/-- A command that carries out nothing. -/
theorem accounts_of_quiet {s later : Session} {e : Encounter} (htarget : e.target? = none)
    (hfirings : e.firings = []) (hdraft : s.draft.ExtendsBy [] later.draft)
    (hdiagnostics : later.diagnostics = s.diagnostics ++ e.diagnostics)
    (hstatuses : later.statuses = s.statuses) (hdumped : later.dumped = s.dumped ++ e.dumped) :
    s.Accounts [e] later := by
  have hfired : e.isFired = false := by rw [Encounter.isFired, htarget, Option.isSome_none]
  refine ⟨⟨[], hdraft, ?_⟩, ?_, ⟨[], ?_, ?_⟩, ?_⟩
  · rw [List.flatMap_singleton, hfirings]
    exact .nil
  · rw [hdiagnostics, List.flatMap_singleton]
  · rw [hstatuses, List.append_nil]
  · rw [List.filter_singleton, hfired]
    exact .nil
  · rw [hdumped, List.flatMap_singleton]

/-- Refusing attributes adds a diagnostic for each. -/
theorem foldl_refuse_diagnostics (s : Session) (decl : String) (error : Attribute.Error)
    (attributes : List Attribute) :
    attributes.foldl (fun s attr => s.refuse decl attr.name error) s =
      { s with diagnostics := s.diagnostics ++
          attributes.map fun attr => .attribute s.draft.unit decl attr.name error } := by
  induction attributes generalizing s with
  | nil => simp
  | cons attr attributes ih =>
    rw [List.foldl_cons, ih, refuse, report, List.append_assoc]
    rfl

private theorem accounts_declare (s : Session) (name : String) (type : Expr) (value : Option Expr)
    (attributes : List Attribute) :
    s.Accounts [⟨s, .declare name type value attributes⟩]
      (s.run (.declare name type value attributes)) := by
  let e : Encounter := ⟨s, .declare name type value attributes⟩
  have hknows := e.knows_eq_isNone_add? name type
  rw [run_declare]
  cases hadd : s.declarations.add? name type with
  | none =>
    rw [hadd, Option.isNone_none] at hknows
    have htarget : e.target? = none := if_pos hknows
    have hdiagnostics : e.diagnostics = [.duplicate s.draft.unit name] := if_pos hknows
    have hfirings : e.firings = [] := by simp [Encounter.firings, e, hadd]
    refine accounts_of_quiet htarget hfirings (s.draft.extendsBy_note _) ?_ rfl
      (List.append_nil _).symm
    rw [hdiagnostics]
    rfl
  | some declarations =>
    rw [hadd, Option.isNone_some] at hknows
    let declaring := { s.note (.declaring name type value.isSome) with declarations }
    have htarget : e.target? = some (name, attributes) := if_neg (by simp [hknows])
    have hdiagnostics : e.diagnostics = e.firings.filterMap (Firing.diagnostic? s.draft.unit) :=
      if_neg (by simp [hknows])
    have hfirings : e.firings =
        declaring.draft.firings declaring.keyword declaring.declarations name attributes := by
      simp only [Encounter.firings, e, hadd]
      rfl
    have hfires := declaring.fires_fire name .declared attributes
    rw [← hfirings] at hfires
    refine hfires.accounts htarget ?_ hdiagnostics rfl (s.draft.extendsBy_note _) rfl rfl rfl
    rw [hfirings, Draft.map_attr_firings]

private theorem accounts_annotate (s : Session) (decl : String) (attributes : List Attribute) :
    s.Accounts [⟨s, .annotate decl attributes⟩] (s.run (.annotate decl attributes)) := by
  let e : Encounter := ⟨s, .annotate decl attributes⟩
  cases hfind : s.declarations.find? decl with
  | none =>
    have hknows : ¬ e.knows decl = true := by simp [Encounter.knows, e, hfind]
    have htarget : e.target? = none := if_neg hknows
    have hfirings : e.firings = [] := if_neg hknows
    have hdiagnostics : e.diagnostics =
        attributes.map fun attr =>
          .attribute s.draft.unit decl attr.name (.unknownDeclaration decl) :=
      if_neg hknows
    rw [run, hfind]
    dsimp only
    rw [foldl_refuse_diagnostics]
    refine accounts_of_quiet htarget hfirings (.refl s.draft) ?_ rfl (List.append_nil _).symm
    rw [hdiagnostics]
  | some type =>
    have hknows : e.knows decl = true := by simp [Encounter.knows, e, hfind]
    have htarget : e.target? = some (decl, attributes) := if_pos hknows
    have hfirings : e.firings = s.draft.firings s.keyword s.declarations decl attributes :=
      if_pos hknows
    have hdiagnostics : e.diagnostics = e.firings.filterMap (Firing.diagnostic? s.draft.unit) :=
      if_pos hknows
    have hfires := s.fires_fire decl .declared attributes
    rw [← hfirings] at hfires
    rw [run, hfind]
    refine hfires.accounts htarget ?_ hdiagnostics rfl (.refl s.draft) rfl rfl rfl
    rw [hfirings, Draft.map_attr_firings]

/-- What a command adds. -/
theorem accounts_run (s : Session) (command : Command) :
    s.Accounts [⟨s, command⟩] (s.run command) := by
  cases command with
  | declare name type value attributes => exact s.accounts_declare name type value attributes
  | annotate decl attributes => exact s.accounts_annotate decl attributes
  | erase decl attr =>
    have hrun : s.run (.erase decl attr) =
        { s with diagnostics := s.diagnostics ++ Encounter.diagnostics ⟨s, .erase decl attr⟩ } := by
      rw [run]
      cases hfind : s.declarations.find? decl
      all_goals simp [refuse, report, Encounter.diagnostics, Encounter.knows, hfind]
    rw [hrun]
    exact accounts_of_quiet rfl rfl (.refl s.draft) rfl rfl (List.append_nil _).symm
  | dump =>
    exact accounts_of_quiet rfl rfl (s.draft.extendsBy_note _) (List.append_nil _).symm rfl rfl

/-- What commands add. -/
theorem accounts_runAll (s : Session) (commands : List Command) :
    s.Accounts (s.encounters commands) (s.runAll commands) := by
  induction commands generalizing s with
  | nil => exact .refl s
  | cons command commands ih => exact (s.accounts_run command).trans (ih (s.run command))

end Session

private theorem Diagnostic.errorCount_eq_length (ds : List Diagnostic) :
    errorCount ds = ds.length := by
  rw [errorCount, List.countP_eq_length]
  intro d _
  cases d <;> rfl

/-- The number of diagnostics. -/
theorem Encounter.length_flatMap_diagnostics (met : List Encounter) :
    (met.flatMap diagnostics).length =
      met.countP isDuplicate + (met.flatMap firings).countP Firing.fails +
        (met.flatMap unknown).length + met.countP isRemoval := by
  induction met with
  | nil => rfl
  | cons e met ih =>
    have hfirst := e.length_diagnostics
    rw [← List.singleton_append, List.countP_append, List.countP_append]
    simp only [List.singleton_append, List.flatMap_cons, List.length_append, List.countP_append]
    omega

/-- The account of a run. An attribute that is carried out adds one entry if it aligns and two if it
exports, or fails with a diagnostic. There is one diagnostic for each of these, for each declaration
of a declared name, for each attribute at a name that is not declared and for each removal, in the
order of the commands, and all of them are errors. Each command that carries out attributes leaves
one status, in the order of the commands: it says that there were none, that one of them failed, or
that all of them succeeded. -/
theorem Session.runAll_accounting (keyword unit : String) (imports : List String)
    (imported : List UnitLog) (events : List Event) (commands : List Command) :
    let start : Session := { keyword, draft := { Draft.start unit imports imported with events } }
    let final := start.runAll commands
    let met := start.encounters commands
    let fired := met.flatMap Encounter.firings
    final.log.entries.length =
      fired.countP (Firing.succeeds .align) + 2 * fired.countP (Firing.succeeds .publish) ∧
    final.diagnostics.length = met.countP Encounter.isDuplicate + fired.countP Firing.fails +
      (met.flatMap Encounter.unknown).length + met.countP Encounter.isRemoval ∧
    Diagnostic.errorCount final.diagnostics = final.diagnostics.length ∧
    final.diagnostics = met.flatMap Encounter.diagnostics ∧
    List.Forall₂ Encounter.Leaves (met.filter Encounter.isFired) final.statuses := by
  intro start final met fired
  obtain ⟨⟨entries, hextends, hadds⟩, hdiagnostics, ⟨added, hadded, hleaves⟩, _⟩ :=
    start.accounts_runAll commands
  have hentries : final.log.entries = entries := hextends.entries_eq
  have hstatuses : final.statuses = added := hadded
  have htold : final.diagnostics = met.flatMap Encounter.diagnostics := hdiagnostics
  refine ⟨?_, ?_, Diagnostic.errorCount_eq_length _, htold, hstatuses ▸ hleaves⟩
  · rw [hentries, hadds.length_eq]
  · rw [htold, Encounter.length_flatMap_diagnostics]

-- A failure is not made up for by a success, but a later command starts anew.
example :
    let start : Session := { keyword := "axiom", draft := Draft.start "Main" [] [] }
    let align : Attribute := ⟨"align_dafny", [.str "F"]⟩
    let broken : Attribute := ⟨"export_dafny", []⟩
    (start.runAll
      [.declare "f" .natType none [broken, align], .annotate "f" [align, broken],
        .annotate "f" [align], .declare "g" .natType none []]).statuses =
      [("f", .rejected), ("f", .rejected), ("f", .accepted), ("g", .declared)] := by
  decide +kernel

end PropExport
