import PropExport.Proofs.Expr.Wire
import PropExport.Unit.Source

/-!
# The written form of unit sources

A unit source is read back from its JSON text whenever that text opens no more brackets than a
reader allows. Whatever text a unit source was read from, its own text stays within that bound: only
expressions nest without limit, and they nest no deeper in the text that is written than in the text
that was read.
-/

namespace PropExport

namespace Argument

/-- An argument is decoded from its own JSON. -/
theorem ofJson_toJson (arg : Argument) : ofJson arg.toJson = .ok arg := by
  cases arg with
  | str s => rfl
  | ident name => rfl
  | num n =>
    rw [toJson, ofJson, Json.variant_singleton]
    change (Json.word64 (.nat n.toNat)).map num = _
    rw [Json.word64_toNat]
    rfl

/-- The JSON of an argument nests one bracket. -/
theorem depth_toJson (arg : Argument) : arg.toJson.depth = 1 := by
  cases arg <;> rfl

/-- The JSON of an argument is plain. -/
theorem isPlain_toJson (arg : Argument) : arg.toJson.isPlain = true := by
  cases arg with
  | str s => rfl
  | ident name => rfl
  | num n => simpa [toJson, Json.isPlain_obj_iff, Json.isPlain_nat_iff] using n.toNat_lt

end Argument

namespace Attribute

/-- An attribute is decoded from its own JSON. -/
theorem ofJson_toJson (attr : Attribute) : ofJson attr.toJson = .ok attr := by
  have hargs := Json.list_map attr.args fun arg _ => arg.ofJson_toJson
  simp only [ofJson, toJson, Json.fields, List.foldlM_cons, List.foldlM_nil, Fields.read, Json.fill,
    Json.text, hargs, bind, Except.bind, pure, Except.pure, Except.map, Json.required,
    Option.getD_some]

private theorem depth_toJson_le (attr : Attribute) : attr.toJson.depth ≤ 3 := by
  have hargs : Json.depthElems (attr.args.map Argument.toJson) ≤ 1 :=
    Json.depthElems_map_le_iff.mpr fun arg _ => Nat.le_of_eq arg.depth_toJson
  simp only [toJson, Json.depth, Json.depthMembers]
  omega

/-- The JSON of an attribute is plain. -/
theorem isPlain_toJson (attr : Attribute) : attr.toJson.isPlain = true := by
  have hname : (Json.str attr.name).isPlain = true := rfl
  have hargs : (Json.arr (attr.args.map Argument.toJson)).isPlain = true :=
    Json.isPlain_map Argument.isPlain_toJson attr.args
  rw [toJson, Json.isPlain_obj_iff]
  simp [hname, hargs]

end Attribute

namespace Command

variable {budget : Nat}

/-- The JSON of a command is plain. -/
theorem isPlain_toJson (command : Command) : command.toJson.isPlain = true := by
  have hstr (s : String) : (Json.str s).isPlain = true := rfl
  have hattributes := Json.isPlain_map Attribute.isPlain_toJson
  cases command with
  | declare name type value attributes =>
    rw [toJson, Json.isPlain_obj_iff]
    cases value <;> simp [hstr, hattributes, Expr.isPlain_toJson]
  | annotate decl attributes =>
    rw [toJson, Json.isPlain_obj_iff]
    simp [hstr, hattributes]
  | erase decl attr => rfl
  | dump => rfl

private theorem depth_declare_le_iff {name : String} {type : Expr} {value : Option Expr}
    {attributes : List Attribute} :
    (declare name type value attributes).toJson.depth ≤ budget ↔
      type.toJson.depth < budget ∧ (∀ e ∈ value, e.toJson.depth < budget) ∧
      Json.depthElems (attributes.map Attribute.toJson) + 1 < budget := by
  cases value with
  | none =>
    simp only [toJson, Option.toList_none, List.map_nil, List.cons_append, List.nil_append,
      Json.depth, Json.depthMembers, Option.mem_def, reduceCtorEq, false_implies, implies_true,
      true_and]
    omega
  | some e =>
    simp only [toJson, Option.toList_some, List.map_cons, List.map_nil, List.cons_append,
      List.nil_append, Json.depth, Json.depthMembers, Option.mem_def, Option.some.injEq, forall_eq']
    omega

private theorem exprOf_toJson {e : Expr} (h : e.toJson.depth ≤ Json.maxDepth) :
    exprOf e.toJson = .ok e :=
  e.ofJson_toJson false Json.maxDepth h

private theorem bodyOf_toJson {e : Expr} (h : e.toJson.depth ≤ Json.maxDepth) :
    bodyOf e.toJson = .ok (some e) := by
  have hbody : bodyOf e.toJson = (exprOf e.toJson).map some := by cases e <;> rfl
  rw [hbody, exprOf_toJson h]
  rfl

/-- A command is decoded from its JSON form if that opens no more brackets than allowed. -/
theorem ofJson_toJson (command : Command) (h : command.toJson.depth ≤ budget)
    (hbudget : budget ≤ Json.maxDepth) : ofJson budget command.toJson = .ok command := by
  have hcollected := Json.collected_of_isPlain command.isPlain_toJson h
  have hattributes (attributes : List Attribute) :=
    Json.list_map attributes fun attr _ => attr.ofJson_toJson
  rw [ofJson, hcollected]
  cases command with
  | declare name type value attributes =>
    obtain ⟨hdepth, hvalue, _⟩ := depth_declare_le_iff.mp h
    have htype : exprOf type.toJson = .ok type := exprOf_toJson (by omega)
    have htagged : (declare name type value attributes).toJson.tagged "command" = .ok ("declare",
        .obj ([("name", .str name), ("type", type.toJson)] ++
          (value.toList.map fun e => ("value", e.toJson)) ++
          [("attributes", .arr (attributes.map Attribute.toJson))])) := by
      cases value <;> rfl
    rw [htagged]
    cases value with
    | none =>
      simp only [Option.toList_none, List.map_nil, List.cons_append, List.nil_append, Json.fields,
        List.foldlM_cons, List.foldlM_nil, DeclareFields.read, Json.fill, Json.text, htype,
        hattributes, bind, Except.bind, pure, Except.pure, Except.map, Json.required,
        Option.getD_some, Option.getD_none]
    | some e =>
      have he : e.toJson.depth < budget := hvalue e rfl
      have hbody : bodyOf e.toJson = .ok (some e) := bodyOf_toJson (by omega)
      simp only [Option.toList_some, List.map_cons, List.map_nil, List.cons_append, List.nil_append,
        Json.fields, List.foldlM_cons, List.foldlM_nil, DeclareFields.read, Json.fill, Json.text,
        htype, hbody, hattributes, bind, Except.bind, pure, Except.pure, Except.map, Json.required,
        Option.getD_some]
  | annotate decl attributes =>
    have htagged : (annotate decl attributes).toJson.tagged "command" = .ok ("attribute",
        .obj [("decl", .str decl), ("attributes", .arr (attributes.map Attribute.toJson))]) := rfl
    rw [htagged]
    simp only [Json.fields, List.foldlM_cons, List.foldlM_nil, AnnotateFields.read, Json.fill,
      Json.text, hattributes, bind, Except.bind, pure, Except.pure, Except.map, Json.required]
  | erase decl attr => rfl
  | dump => rfl

/-- The expressions among the fields of a declaration nest less deep than a bound. -/
structure DeclareFields.Within (slots : DeclareFields) (bound : Nat) : Prop where
  type : ∀ e ∈ slots.type, e.toJson.depth < bound
  value : ∀ body ∈ slots.value, ∀ e ∈ body, e.toJson.depth < bound

private theorem depth_le_of_bodyOf {v : Json} {body : Option Expr} (h : bodyOf v = .ok body) :
    ∀ e ∈ body, e.toJson.depth ≤ v.depth := by
  intro e he
  unfold bodyOf at h
  split at h
  · cases h
    cases he
  · obtain ⟨found, hfound, rfl⟩ := exists_of_map_eq_ok h
    cases he
    exact Expr.depth_le_of_ofJson hfound

/-- Reading one more field keeps the expressions of a declaration within a bound. -/
theorem DeclareFields.Within.read {slots later : DeclareFields} {bound : Nat}
    {field : String × Json} (h : slots.Within bound) (hfield : field.2.depth < bound)
    (hread : slots.read field = .ok later) : later.Within bound := by
  unfold DeclareFields.read at hread
  split at hread
  · obtain ⟨name, _, hlater⟩ := exists_of_bind_eq_ok hread
    cases hlater
    exact { h with }
  · obtain ⟨type, htype, hlater⟩ := exists_of_bind_eq_ok hread
    cases hlater
    obtain ⟨e, he, rfl⟩ := Json.exists_of_fill_eq_ok htype
    have hdepth := Expr.depth_le_of_ofJson he
    refine { h with type := ?_ }
    rintro _ ⟨⟩
    exact Nat.lt_of_le_of_lt hdepth hfield
  · obtain ⟨value, hvalue, hlater⟩ := exists_of_bind_eq_ok hread
    cases hlater
    obtain ⟨body, hbody, rfl⟩ := Json.exists_of_fill_eq_ok hvalue
    have hdepth := depth_le_of_bodyOf hbody
    refine { h with value := ?_ }
    rintro _ ⟨⟩
    exact fun e he => Nat.lt_of_le_of_lt (hdepth e he) hfield
  · obtain ⟨attributes, _, hlater⟩ := exists_of_bind_eq_ok hread
    cases hlater
    exact { h with }
  · obtain ⟨_, _, hlater⟩ := exists_of_bind_eq_ok hread
    cases hlater
    exact h

private theorem DeclareFields.within_of_foldlM {record : Json} {names : List String}
    {members : List (String × Json)} {slots : DeclareFields}
    (hmembers : record.fields names = .ok members)
    (hslots : members.foldlM DeclareFields.read {} = .ok slots) : slots.Within record.depth := by
  refine foldlM_invariant (·.Within record.depth) ⟨nofun, nofun⟩ ?_ hslots
  intro earlier later field hfield h
  exact h.read (Json.depth_lt_of_fields hmembers field hfield)

/-- Attributes do not nest. -/
theorem depth_attributes_le (attributes : List Attribute) :
    Json.depthElems (attributes.map Attribute.toJson) ≤ 3 :=
  Json.depthElems_map_le_iff.mpr fun attr _ => attr.depth_toJson_le

/-- A command that was decoded opens no more brackets than were allowed, unless those are too few
for its attributes. -/
theorem depth_le_of_ofJson {v : Json} {command : Command} (h : ofJson budget v = .ok command) :
    command.toJson.depth ≤ max budget 5 := by
  unfold ofJson at h
  obtain ⟨⟨⟩, hcollected, hrest⟩ := exists_of_bind_eq_ok h
  obtain ⟨⟨tag, record⟩, htagged, hrest⟩ := exists_of_bind_eq_ok hrest
  have hrecord : record.depth ≤ budget :=
    Nat.le_trans (Json.depth_le_of_tagged htagged) (Json.depth_le_of_collected hcollected)
  dsimp only at hrest
  split at hrest
  · next heq =>
    cases heq
    obtain ⟨members, hmembers, hrest⟩ := exists_of_bind_eq_ok hrest
    obtain ⟨slots, hslots, hrest⟩ := exists_of_bind_eq_ok hrest
    obtain ⟨name, _, hrest⟩ := exists_of_bind_eq_ok hrest
    obtain ⟨type, htype, hrest⟩ := exists_of_bind_eq_ok hrest
    cases hrest
    have hwithin := DeclareFields.within_of_foldlM hmembers hslots
    have htype := hwithin.type type (Json.eq_some_of_required htype)
    have hattributes := depth_attributes_le (slots.attributes.getD [])
    refine depth_declare_le_iff.mpr ⟨by omega, ?_, by omega⟩
    intro e he
    have hvalue : slots.value = some (some e) := by
      cases hvalue : slots.value <;> simp_all
    have hdepth := hwithin.value (some e) hvalue e rfl
    omega
  · obtain ⟨members, _, hrest⟩ := exists_of_bind_eq_ok hrest
    obtain ⟨slots, _, hrest⟩ := exists_of_bind_eq_ok hrest
    obtain ⟨decl, _, hrest⟩ := exists_of_bind_eq_ok hrest
    obtain ⟨attributes, _, hrest⟩ := exists_of_bind_eq_ok hrest
    cases hrest
    have hattributes := depth_attributes_le attributes
    simp only [toJson, Json.depth, Json.depthMembers]
    omega
  · obtain ⟨members, _, hrest⟩ := exists_of_bind_eq_ok hrest
    obtain ⟨slots, _, hrest⟩ := exists_of_bind_eq_ok hrest
    obtain ⟨decl, _, hrest⟩ := exists_of_bind_eq_ok hrest
    obtain ⟨attr, _, hrest⟩ := exists_of_bind_eq_ok hrest
    cases hrest
    have hdepth : (erase decl attr).toJson.depth = 1 := rfl
    omega
  · obtain ⟨members, _, hrest⟩ := exists_of_bind_eq_ok hrest
    obtain ⟨_, _, hrest⟩ := exists_of_bind_eq_ok hrest
    cases hrest
    have hdepth : dump.toJson.depth = 1 := rfl
    omega
  · cases hrest

end Command

namespace UnitSource

/-- The JSON of a unit is plain. -/
theorem isPlain_toJson (source : UnitSource) : source.toJson.isPlain = true := by
  have hname : (Json.str source.name).isPlain = true := rfl
  have himports : (Json.arr (source.imports.map .str)).isPlain = true :=
    Json.isPlain_map (fun _ => rfl) source.imports
  have hcommands : (Json.arr (source.commands.map Command.toJson)).isPlain = true :=
    Json.isPlain_map Command.isPlain_toJson source.commands
  rw [toJson, Json.isPlain_obj_iff]
  simp [hname, himports, hcommands]

/-- A command stands inside two brackets. -/
theorem depth_toJson_le_iff {source : UnitSource} :
    source.toJson.depth ≤ Json.maxDepth ↔
      ∀ command ∈ source.commands, command.toJson.depth ≤ Json.maxDepth - 2 := by
  have himports : Json.depthElems (source.imports.map .str) ≤ 0 :=
    Json.depthElems_map_le_iff.mpr fun name _ => Nat.le_refl 0
  rw [← Json.depthElems_map_le_iff]
  simp only [toJson, Json.depth, Json.depthMembers, Json.maxDepth]
  omega

/-- A unit is decoded from its own JSON unless that nests too deep. -/
theorem ofJson_toJson {source : UnitSource} (h : source.toJson.depth ≤ Json.maxDepth) :
    ofJson source.toJson = .ok source := by
  have htext (name : String) : Json.text (.str name) = .ok name := rfl
  have himports := Json.list_map source.imports fun name _ => htext name
  have hcommands := Json.list_map source.commands fun command hcommand =>
    command.ofJson_toJson (depth_toJson_le_iff.mp h command hcommand) (by decide)
  simp only [ofJson, toJson, Json.fields, List.foldlM_cons, List.foldlM_nil, Fields.read, Json.fill,
    Json.text, himports, hcommands, bind, Except.bind, pure, Except.pure, Except.map, Json.required,
    Option.getD_some]

/-- The commands among the fields of a unit nest no deeper than two brackets around them allow. -/
def Fields.Within (slots : Fields) : Prop :=
  ∀ commands ∈ slots.commands, ∀ command ∈ commands, command.toJson.depth ≤ Json.maxDepth - 2

/-- Reading one more field keeps the commands of a unit within the nesting limit. -/
theorem Fields.Within.read {slots later : Fields} {field : String × Json} (h : slots.Within)
    (hread : slots.read field = .ok later) : later.Within := by
  unfold Fields.read at hread
  split at hread
  · obtain ⟨name, _, hlater⟩ := exists_of_bind_eq_ok hread
    cases hlater
    exact h
  · obtain ⟨imports, _, hlater⟩ := exists_of_bind_eq_ok hread
    cases hlater
    exact h
  · obtain ⟨commands, hcommands, hlater⟩ := exists_of_bind_eq_ok hread
    cases hlater
    obtain ⟨found, hfound, rfl⟩ := Json.exists_of_fill_eq_ok hcommands
    rintro _ ⟨⟩ command hcommand
    obtain ⟨w, hw⟩ := Json.exists_of_list_eq_ok hfound command hcommand
    exact Command.depth_le_of_ofJson hw
  · cases hread

/-- A unit that was decoded opens no more brackets than a reader allows. -/
theorem depth_le_of_ofJson {v : Json} {source : UnitSource} (h : ofJson v = .ok source) :
    source.toJson.depth ≤ Json.maxDepth := by
  unfold ofJson at h
  obtain ⟨members, _, hrest⟩ := exists_of_bind_eq_ok h
  obtain ⟨slots, hslots, hrest⟩ := exists_of_bind_eq_ok hrest
  obtain ⟨name, _, hrest⟩ := exists_of_bind_eq_ok hrest
  cases hrest
  have hstart : Fields.Within {} := by
    rintro _ ⟨⟩
  have hwithin : slots.Within :=
    foldlM_invariant Fields.Within hstart (fun _ _ _ _ h => h.read) hslots
  refine depth_toJson_le_iff.mpr fun command hcommand => ?_
  cases hcommands : slots.commands with
  | none => simp [hcommands] at hcommand
  | some commands =>
    have hmem : command ∈ commands := by simpa [hcommands] using hcommand
    exact hwithin commands hcommands command hmem

/-- A unit is read back from its text if that opens no more brackets than allowed. -/
theorem parse_print_of_depth_le {source : UnitSource} (h : source.toJson.depth ≤ Json.maxDepth) :
    parse source.print = .ok source :=
  (Document.decode_written .compact source.isPlain_toJson).trans (ofJson_toJson h)

private theorem depth_le_of_parse {text : String} {source : UnitSource}
    (h : parse text = .ok source) : source.toJson.depth ≤ Json.maxDepth :=
  depth_le_of_ofJson (Document.decode_eq_ok h)

/-- **Unit sources survive writing and reading.** A unit is read back from its text exactly if its
brackets nest no deeper than a reader allows, and whatever text a unit was read from, this is so. -/
theorem parse_print_eq_ok :
    (∀ source : UnitSource,
      parse source.print = .ok source ↔ source.toJson.depth ≤ Json.maxDepth) ∧
    ∀ (text : String) (source : UnitSource), parse text = .ok source →
      source.toJson.depth ≤ Json.maxDepth ∧ parse source.print = .ok source := by
  constructor
  · intro source
    exact ⟨depth_le_of_parse, parse_print_of_depth_le⟩
  · intro text source h
    have hdepth := depth_le_of_parse h
    exact ⟨hdepth, parse_print_of_depth_le hdepth⟩

/-- A unit written as an array, whose command has its tag last, an unknown field, no body and a
numeral with a sign, a leading zero and an underscore for a number of more than 64 bits. -/
theorem parse_print_eq_ok_rewritten :
    let text := "[\"A\", [\"B\"], [\x7b\"name\": \"f\", \"type\": \x7b\"lit\": \x7b\"nat\": " ++
      "\"+0_18446744073709551616\"\x7d\x7d, \"value\": null, \"note\": [1.5], " ++
      "\"attributes\": [[\"align_dafny\", [\x7b\"num\": 7\x7d]]], \"command\": \"declare\"\x7d]]"
    let source : UnitSource :=
      { name := "A"
        imports := ["B"]
        commands := [.declare "f" (.natLit 18446744073709551616) none [⟨"align_dafny", [.num 7]⟩]] }
    parse text = .ok source ∧ source.toJson.depth = 7 ∧ parse source.print = .ok source := by
  intro text source
  have htext : parse text = .ok source := eq_ok_of_toOption_eq_some (by decide +kernel)
  exact ⟨htext, by decide, (parse_print_eq_ok.2 text source htext).2⟩

end UnitSource

end PropExport
