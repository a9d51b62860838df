import PropExport.Proofs.Ledger.Merge

/-!
# Logs in another order

What a merged ledger owes to the order of its units. Which declarations have a target and which
lines are exported depends on the units alone. The order shows in two places: the blocks of lines
follow it, and where units disagree about a declaration the last one that binds it decides.
-/

namespace PropExport

namespace SymbolTable

private theorem mem_keys_iff {table : SymbolTable} {key : String} :
    key ∈ table.bindings.map Prod.fst ↔ table.find? key ≠ none := by
  unfold find?
  rw [ne_eq, List.lookup_eq_none_iff]
  simp

/-- Tables that bind the same names have the same size. -/
theorem size_eq_of_find?_eq_none_iff {table other : SymbolTable}
    (h : ∀ key, table.find? key = none ↔ other.find? key = none) : table.size = other.size := by
  have hkeys : (table.bindings.map Prod.fst).Perm (other.bindings.map Prod.fst) := by
    rw [List.perm_ext_iff_of_nodup table.nodup_keys other.nodup_keys]
    intro key
    rw [mem_keys_iff, mem_keys_iff, ne_eq, h key]
  simpa only [size, List.length_map] using hkeys.length_eq

end SymbolTable

namespace UnitLog

/-- The last of some units that binds a declaration records a target for it last. -/
def LastBinding (units : List UnitLog) (decl target : String) : Prop :=
  ∃ before log after, units = before ++ log :: after ∧ log.BindsLast decl target ∧
    ∀ later ∈ after, ¬ later.Binds decl

/-- All units that bind a declaration record the same target for it last. -/
def AgreeOn (units : List UnitLog) (decl : String) : Prop :=
  ∀ log ∈ units, ∀ other ∈ units, ∀ target target', log.BindsLast decl target →
    other.BindsLast decl target' → target = target'

variable {units others : List UnitLog} {decl target : String}

private theorem exists_lastBinding (h : ∃ log ∈ units, log.Binds decl) :
    ∃ target, LastBinding units decl target := by
  obtain ⟨before, log, after, hsplit, hbinds, hafter⟩ := exists_last_split h
  obtain ⟨target, htarget⟩ := hbinds.exists_bindsLast
  exact ⟨target, before, log, after, hsplit, htarget, hafter⟩

private theorem LastBinding.exists_mem (h : LastBinding units decl target) :
    ∃ log ∈ units, log.BindsLast decl target := by
  obtain ⟨before, log, after, rfl, hlast, _⟩ := h
  exact ⟨log, by simp, hlast⟩

/-- Units that agree about a declaration decide on its target in every order. -/
theorem LastBinding.perm (h : LastBinding units decl target) (hperm : units.Perm others)
    (hagree : AgreeOn units decl) : LastBinding others decl target := by
  obtain ⟨log, hlog, hlast⟩ := h.exists_mem
  obtain ⟨target', h'⟩ := exists_lastBinding ⟨log, hperm.mem_iff.mp hlog, hlast.binds⟩
  obtain ⟨log', hlog', hlast'⟩ := h'.exists_mem
  rw [hagree log hlog log' (hperm.mem_iff.mpr hlog') target target' hlast hlast']
  exact h'

private theorem AgreeOn.perm (h : AgreeOn units decl) (hperm : units.Perm others) :
    AgreeOn others decl :=
  fun log hlog other hother =>
    h log (hperm.mem_iff.mpr hlog) other (hperm.mem_iff.mpr hother)

end UnitLog

namespace Ledger

open UnitLog

variable {units others : List UnitLog} {decl target : String}

private theorem find?_merge_eq_some_iff :
    (merge units).find? decl = some target ↔ LastBinding units decl target := by
  have hfind {found : String} (h : LastBinding units decl found) :
      (merge units).find? decl = some found := by
    obtain ⟨before, log, after, rfl, hlast, hafter⟩ := h
    exact find?_merge_of_bindsLast hlast hafter
  refine ⟨fun h => ?_, hfind⟩
  by_cases hbound : ∃ log ∈ units, log.Binds decl
  · obtain ⟨found, hfound⟩ := exists_lastBinding hbound
    obtain rfl : found = target := Option.some.inj ((hfind hfound).symm.trans h)
    exact hfound
  · rw [find?_merge_of_not_binds fun log hlog hbinds => hbound ⟨log, hlog, hbinds⟩] at h
    cases h

private theorem find?_merge_eq_none_iff :
    (merge units).find? decl = none ↔ ∀ log ∈ units, ¬ log.Binds decl := by
  refine ⟨fun h log hlog hbinds => ?_, find?_merge_of_not_binds⟩
  obtain ⟨target, htarget⟩ := exists_lastBinding ⟨log, hlog, hbinds⟩
  rw [find?_merge_eq_some_iff.mpr htarget] at h
  cases h

/-- Units merged in another order give a ledger with targets for the same declarations, and as many,
and with the same lines, where those of each unit stay together in their order. A declaration has
the same target in both if the units that bind it agree. In both its target is the last one that the
last unit records that binds it. -/
theorem merge_reordered (h : units.Perm others) :
    (∀ decl, (merge units).find? decl = none ↔ (merge others).find? decl = none) ∧
    (merge units).symbols.size = (merge others).symbols.size ∧
    (merge units).exports.Perm (merge others).exports ∧
    (merge units).exports = (units.map UnitLog.lines).flatten ∧
    (merge others).exports = (others.map UnitLog.lines).flatten ∧
    (∀ decl, AgreeOn units decl → (merge units).find? decl = (merge others).find? decl) ∧
    ∀ decl target,
      ((merge units).find? decl = some target ↔ LastBinding units decl target) ∧
      ((merge others).find? decl = some target ↔ LastBinding others decl target) := by
  have hnone (decl : String) :
      (merge units).find? decl = none ↔ (merge others).find? decl = none := by
    simp only [find?_merge_eq_none_iff, h.mem_iff]
  refine ⟨hnone, SymbolTable.size_eq_of_find?_eq_none_iff hnone, ?_, exports_merge units,
    exports_merge others, fun decl hagree => ?_, fun decl target =>
      ⟨find?_merge_eq_some_iff, find?_merge_eq_some_iff⟩⟩
  · rw [exports_merge, exports_merge]
    exact (h.map UnitLog.lines).flatten
  · refine Option.ext fun target => ?_
    rw [find?_merge_eq_some_iff, find?_merge_eq_some_iff]
    exact ⟨fun hlast => hlast.perm h hagree, fun hlast => hlast.perm h.symm (hagree.perm h)⟩

/-- Two units agree about one declaration, after one of them changed its mind, and disagree about
another. -/
theorem merge_reordered_disagreeing :
    let left : UnitLog := ⟨"left", [], [.bind "two" "Zwei", .bind "one" "Left", .bind "two" "Two"]⟩
    let right : UnitLog :=
      ⟨"right", [], [.publish "axiom R: 1 == 1", .bind "two" "Two", .bind "one" "Right"]⟩
    [left, right].Perm [right, left] ∧
    (merge [left, right]).symbols.size = (merge [right, left]).symbols.size ∧
    (merge [left, right]).exports.Perm (merge [right, left]).exports ∧
    AgreeOn [left, right] "two" ∧
    (merge [left, right]).find? "two" = (merge [right, left]).find? "two" ∧
    LastBinding [left, right] "one" "Right" ∧ LastBinding [right, left] "one" "Left" := by
  intro left right
  have hperm : [left, right].Perm [right, left] := .swap right left []
  obtain ⟨_, hsize, hexports, _, _, hagreed, hlast⟩ := merge_reordered hperm
  have htwo : ∀ log ∈ [left, right], ∀ target, log.BindsLast "two" target → "Two" = target := by
    intro log hlog target hlast
    have hfind := find?_replay_of_lastTarget {} hlast
    rcases List.mem_cons.mp hlog with rfl | hright
    · exact Option.some.inj hfind
    · obtain rfl := List.mem_singleton.mp hright
      exact Option.some.inj hfind
  have hagree : AgreeOn [left, right] "two" :=
    fun log hlog other hother target target' hlast hlast' =>
      (htwo log hlog target hlast).symm.trans (htwo other hother target' hlast')
  exact ⟨hperm, hsize, hexports, hagree, hagreed "two" hagree, (hlast "one" "Right").1.mp rfl,
    (hlast "one" "Left").2.mp rfl⟩

end Ledger

end PropExport
