import PropExport.Ledger.Entry
import PropExport.Proofs.Json.Decode

/-!
# The written form of unit logs

Writing a unit log, in whatever layout, loses nothing: reading gives the same log, whatever
characters its texts hold.
-/

namespace PropExport

namespace Entry

/-- An entry is a record of texts. -/
theorem isPlain_toJson (entry : Entry) : entry.toJson.isPlain = true := by
  cases entry <;> rfl

/-- An entry is decoded from its own JSON. -/
theorem ofJson_toJson (entry : Entry) {budget : Nat} (h : 1 ≤ budget) :
    ofJson budget entry.toJson = .ok entry := by
  have hdepth : entry.toJson.depth = 1 := by cases entry <;> rfl
  have hcollected : entry.toJson.collected budget = .ok () :=
    Json.collected_of_isPlain entry.isPlain_toJson (by omega)
  unfold ofJson
  rw [hcollected]
  cases entry <;> rfl

end Entry

namespace UnitLog

/-- The JSON of a log is plain. -/
theorem isPlain_toJson (log : UnitLog) : log.toJson.isPlain = true := by
  have himports : (Json.arr (log.imports.map .str)).isPlain = true :=
    Json.isPlain_map (fun _ => rfl) log.imports
  have hentries : (Json.arr (log.entries.map Entry.toJson)).isPlain = true :=
    Json.isPlain_map Entry.isPlain_toJson log.entries
  have hunit : (Json.str log.unit).isPlain = true := rfl
  rw [toJson, Json.isPlain_obj_iff]
  simp [hunit, himports, hentries]

/-- A log is decoded from its own JSON. -/
theorem ofJson_toJson (log : UnitLog) : ofJson log.toJson = .ok log := by
  have htext (name : String) : Json.text (.str name) = .ok name := rfl
  have himports := Json.list_map log.imports fun name _ => htext name
  have hentry (entry : Entry) : Entry.ofJson (Json.maxDepth - 2) entry.toJson = .ok entry :=
    entry.ofJson_toJson (by decide)
  have hentries := Json.list_map log.entries fun entry _ => hentry entry
  simp only [ofJson, toJson, Json.fields, List.foldlM_cons, List.foldlM_nil, Fields.read, Json.fill,
    Json.text, himports, hentries, bind, Except.bind, pure, Except.pure, Except.map, Json.required]

/-- A unit log is read back from its written form. -/
theorem parse_written (layout : Json.Layout) (log : UnitLog) :
    parse (log.toJson.written layout 0) = .ok log := by
  rw [parse, Document.decode_written layout log.isPlain_toJson, ofJson_toJson]

end UnitLog

end PropExport
