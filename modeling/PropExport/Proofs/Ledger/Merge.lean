import PropExport.Proofs.Session.Record

/-!
# Merged logs

What a ledger holds after the logs of some units were replayed: their lines, unit by unit, and for
every declaration the last target that was recorded for it. Nothing that stands earlier in the logs
can be seen through a later binding.
-/

namespace PropExport

/-- Of the elements with a property, one stands last. -/
theorem exists_last_split {α : Type} {p : α → Prop} {xs : List α} (h : ∃ x ∈ xs, p x) :
    ∃ before x after, xs = before ++ x :: after ∧ p x ∧ ∀ y ∈ after, ¬ p y := by
  induction xs with
  | nil =>
    obtain ⟨_, hmem, _⟩ := h
    cases hmem
  | cons first rest ih =>
    by_cases hrest : ∃ x ∈ rest, p x
    · obtain ⟨before, x, after, rfl, hx, hafter⟩ := ih hrest
      exact ⟨first :: before, x, after, rfl, hx, hafter⟩
    · obtain ⟨x, hmem, hx⟩ := h
      have hfirst : x = first := (List.mem_cons.mp hmem).resolve_right fun hx' => hrest ⟨x, hx', hx⟩
      exact ⟨[], first, rest, rfl, hfirst ▸ hx, fun y hy hpy => hrest ⟨y, hy, hpy⟩⟩

/-- The line that an entry adds to the exported ones. -/
def Entry.line? : Entry → Option String
  | .bind _ _ => none
  | .publish line => some line

/-- The last target that entries record for a declaration. -/
def Entry.LastTarget (entries : List Entry) (decl target : String) : Prop :=
  ∃ before after, entries = before ++ .bind decl target :: after ∧
    ∀ other, Entry.bind decl other ∉ after

namespace UnitLog

/-- The lines that a unit exports, in the order in which it recorded them. -/
def lines (log : UnitLog) : List String :=
  log.entries.filterMap Entry.line?

/-- A unit records a target for a declaration. -/
def Binds (log : UnitLog) (decl : String) : Prop :=
  ∃ target, Entry.bind decl target ∈ log.entries

/-- The last target that a unit records for a declaration. -/
def BindsLast (log : UnitLog) (decl target : String) : Prop :=
  Entry.LastTarget log.entries decl target

end UnitLog

namespace Entry

variable {entries : List Entry} {decl target : String}

/-- Where a declaration is bound at all, one of its bindings is the last. -/
theorem exists_lastTarget (h : Entry.bind decl target ∈ entries) :
    ∃ last, LastTarget entries decl last := by
  obtain ⟨before, _, after, rfl, ⟨last, rfl⟩, hafter⟩ :=
    exists_last_split (p := fun entry => ∃ last, entry = Entry.bind decl last) ⟨_, h, target, rfl⟩
  exact ⟨last, before, after, rfl, fun other hother => hafter _ hother ⟨other, rfl⟩⟩

/-- The lines of entries are those that are published. -/
theorem mem_filterMap_line? {line : String} :
    line ∈ entries.filterMap line? ↔ Entry.publish line ∈ entries := by
  rw [List.mem_filterMap]
  constructor
  · rintro ⟨entry, hmem, hline⟩
    cases entry with
    | bind decl target => cases hline
    | publish found =>
      cases hline
      exact hmem
  · exact fun hmem => ⟨_, hmem, rfl⟩

/-- The last target in a part of the entries is the last one if the later parts record none. -/
theorem LastTarget.append (h : LastTarget entries decl target) (earlier : List Entry)
    {later : List Entry} (hlater : ∀ other, Entry.bind decl other ∉ later) :
    LastTarget (earlier ++ (entries ++ later)) decl target := by
  obtain ⟨before, after, rfl, hafter⟩ := h
  refine ⟨earlier ++ before, after ++ later, by simp, fun other hother => ?_⟩
  rcases List.mem_append.mp hother with hmem | hmem
  · exact hafter other hmem
  · exact hlater other hmem

end Entry

/-- What is bound last is bound. -/
theorem UnitLog.BindsLast.binds {log : UnitLog} {decl target : String}
    (h : log.BindsLast decl target) : log.Binds decl := by
  obtain ⟨before, after, heq, _⟩ := h
  exact ⟨target, by rw [heq]; simp⟩

/-- A name that is bound is bound for the last time somewhere. -/
theorem UnitLog.Binds.exists_bindsLast {log : UnitLog} {decl : String} (h : log.Binds decl) :
    ∃ target, log.BindsLast decl target := by
  obtain ⟨target, hmem⟩ := h
  exact Entry.exists_lastTarget hmem

namespace Ledger

variable {decl target : String}

private theorem find?_bind (ledger : Ledger) (key : String) :
    (ledger.bind key target).find? decl = if decl = key then some target else ledger.find? decl :=
  ledger.symbols.find?_insert key target decl

/-- Replaying adds the lines of the entries in order. -/
theorem exports_replay (ledger : Ledger) (entries : List Entry) :
    (ledger.replay entries).exports = ledger.exports ++ entries.filterMap Entry.line? := by
  induction entries generalizing ledger with
  | nil => exact (List.append_nil _).symm
  | cons entry entries ih =>
    rw [replay, List.foldl_cons, ← replay, ih]
    cases entry with
    | bind key target => rfl
    | publish line => simp [apply, publish, Entry.line?]

/-- Entries that do not bind a declaration leave its target as it is. -/
theorem find?_replay_of_not_bind (ledger : Ledger) {entries : List Entry}
    (h : ∀ other, Entry.bind decl other ∉ entries) :
    (ledger.replay entries).find? decl = ledger.find? decl := by
  induction entries generalizing ledger with
  | nil => rfl
  | cons entry entries ih =>
    rw [replay, List.foldl_cons, ← replay, ih _ fun other hother => h other (by simp [hother])]
    cases entry with
    | publish line => rfl
    | bind key target =>
      have hne : decl ≠ key := by
        rintro rfl
        exact h target (by simp)
      rw [apply, find?_bind, if_neg hne]

/-- The last binding of a declaration decides its target. -/
theorem find?_replay_of_lastTarget (ledger : Ledger) {entries : List Entry}
    (h : Entry.LastTarget entries decl target) :
    (ledger.replay entries).find? decl = some target := by
  obtain ⟨before, after, rfl, hafter⟩ := h
  rw [replay_append, replay, List.foldl_cons, ← replay, find?_replay_of_not_bind _ hafter, apply,
    find?_bind, if_pos rfl]

/-- A target was there before some entries, or is recorded by one of them. -/
theorem find?_replay_eq_some {ledger : Ledger} {entries : List Entry}
    (h : (ledger.replay entries).find? decl = some target) :
    ledger.find? decl = some target ∨ Entry.bind decl target ∈ entries := by
  by_cases hbound : ∃ other, Entry.bind decl other ∈ entries
  · obtain ⟨other, hother⟩ := hbound
    obtain ⟨last, hlast⟩ := Entry.exists_lastTarget hother
    obtain rfl : last = target :=
      Option.some.inj ((find?_replay_of_lastTarget ledger hlast).symm.trans h)
    obtain ⟨before, after, rfl, _⟩ := hlast
    exact .inr (by simp)
  · rw [find?_replay_of_not_bind ledger fun other hother => hbound ⟨other, hother⟩] at h
    exact .inl h

/-- Replaying units is replaying their entries one after the other. -/
theorem replayUnits_eq (ledger : Ledger) (units : List UnitLog) :
    ledger.replayUnits units = ledger.replay (units.flatMap UnitLog.entries) := by
  induction units generalizing ledger with
  | nil => rfl
  | cons log units ih =>
    rw [replayUnits, List.foldl_cons, ← replayUnits, ih, List.flatMap_cons, replay_append]

/-- Merging units is replaying all their entries in order. -/
theorem merge_eq (units : List UnitLog) :
    merge units = ({} : Ledger).replay (units.flatMap UnitLog.entries) :=
  replayUnits_eq {} units

/-- The exported lines are those of the units, one block after the other. -/
theorem exports_merge (units : List UnitLog) :
    (merge units).exports = (units.map UnitLog.lines).flatten := by
  rw [merge_eq, exports_replay, List.filterMap_flatMap, ← List.flatMap_def]
  rfl

/-- A declaration that no unit binds has no target. -/
theorem find?_merge_of_not_binds {units : List UnitLog} (h : ∀ log ∈ units, ¬ log.Binds decl) :
    (merge units).find? decl = none := by
  rw [merge_eq, find?_replay_of_not_bind]
  · rfl
  · intro other hother
    obtain ⟨log, hlog, hmem⟩ := List.mem_flatMap.mp hother
    exact h log hlog ⟨other, hmem⟩

/-- The last unit that binds a declaration decides its target. -/
theorem find?_merge_of_bindsLast {before after : List UnitLog} {log : UnitLog}
    (h : log.BindsLast decl target) (hafter : ∀ later ∈ after, ¬ later.Binds decl) :
    (merge (before ++ log :: after)).find? decl = some target := by
  have hnone : ∀ other, Entry.bind decl other ∉ after.flatMap UnitLog.entries := by
    intro other hother
    obtain ⟨later, hlater, hmem⟩ := List.mem_flatMap.mp hother
    exact hafter later hlater ⟨other, hmem⟩
  have hlast := Entry.LastTarget.append h (before.flatMap UnitLog.entries) hnone
  rw [merge_eq, List.flatMap_append, List.flatMap_cons]
  exact find?_replay_of_lastTarget _ hlast

end Ledger

end PropExport
