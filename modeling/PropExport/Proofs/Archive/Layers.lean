import PropExport.Proofs.Archive.Replay
import PropExport.Proofs.Ledger.Merge

/-!
# The layers of a ledger

The ledger at the end of a unit is made of one layer for each unit that it reaches. A layer stands
above those of all that its unit imports, so the lines of every unit come once and after the lines
they may build on, and a binding hides those of the units below it.
-/

namespace PropExport

open ImportGraph Relation

/-- Lists that are related element by element are taken apart at the same place. -/
theorem forall₂_split {α β : Type} {R : α → β → Prop} {before after : List α} {x : α} {ys : List β}
    (h : List.Forall₂ R (before ++ x :: after) ys) :
    ∃ earlier y later, ys = earlier ++ y :: later ∧ R x y ∧ List.Forall₂ R after later := by
  have hrest := List.forall₂_drop before.length h
  rw [List.drop_left] at hrest
  obtain ⟨y, later, hxy, hlater, hdrop⟩ := List.forall₂_cons_left_iff.mp hrest
  exact ⟨ys.take before.length, y, later, by rw [← hdrop, List.take_append_drop], hxy, hlater⟩

private theorem exists_of_mem_forall₂ {α β : Type} {R : α → β → Prop} {xs : List α} {ys : List β}
    (h : List.Forall₂ R xs ys) {y : β} (hy : y ∈ ys) : ∃ x ∈ xs, R x y := by
  obtain ⟨earlier, later, rfl⟩ := List.mem_iff_append.mp hy
  obtain ⟨before, x, after, rfl, hxy, _⟩ := forall₂_split (List.Forall₂.flip (R := flip R) h)
  exact ⟨x, by simp, hxy⟩

namespace Archive

/-- The units that make up a ledger, with their logs, in the order in which they are replayed. -/
structure Layers (a : Archive) (unit : String) (order : List String) (logs : List UnitLog) :
    Prop where
  nodup : order.Nodup
  mem_iff : ∀ {v}, v ∈ order ↔ a.graph.Reaches [unit] v
  last : ∃ others, order = others ++ [unit]
  mem_before : ∀ {before v after w}, order = before ++ v :: after →
    TransGen a.graph.Imports v w → w ∈ before
  stored : List.Forall₂ (fun v log => a.stored v = .ok log) order logs

/-- A ledger is merged from its layers. -/
theorem exists_layers_of_ledgerOf {a : Archive} {unit : String} {ledger : Ledger}
    (h : (ledgerOf unit a).1 = .ok ledger) :
    ∃ order logs, a.Layers unit order logs ∧ ledger = Ledger.merge logs := by
  obtain ⟨visits, logs, hvisits, hstored, rfl⟩ := ledgerOf_eq_ok_iff.mp h
  refine ⟨visits.eraseDups, logs, ⟨nodup_eraseDups visits, ?_, ?_, ?_, hstored⟩, rfl⟩
  · intro v
    rw [List.mem_eraseDups, hvisits.mem_iff_reaches]
  · have hacyclic := hvisits.acyclic (hvisits.subset (List.mem_singleton.mpr rfl))
    cases hvisits with
    | cons hload hbelow hrest =>
      cases hrest
      have hnew : unit ∉ _ := fun hmem => by
        obtain ⟨name, hname, hpath⟩ := hbelow.mem_iff_reaches.mp hmem
        exact hacyclic (.head' ⟨_, hload, hname⟩ hpath)
      exact ⟨_, eraseDups_append_singleton hnew⟩
  · exact fun hsplit hpath => hvisits.mem_before_of_transGen hsplit hpath

namespace Layers

variable {a : Archive} {unit decl target : String} {order : List String} {logs : List UnitLog}
  (h : a.Layers unit order logs)

include h

/-- The lowest layers are hidden: the last unit that binds a declaration decides its target. -/
theorem find?_of_last {before after : List String} {v : String} {log : UnitLog}
    (hsplit : order = before ++ v :: after) (hlog : a.stored v = .ok log)
    (hbinds : log.BindsLast decl target)
    (hafter : ∀ w ∈ after, ∀ later, a.stored w = .ok later → ¬ later.Binds decl) :
    (Ledger.merge logs).find? decl = some target := by
  obtain ⟨below, log', above, rfl, hlog', habove⟩ := forall₂_split (hsplit ▸ h.stored)
  obtain rfl : log = log' := Except.ok.inj (hlog.symm.trans hlog')
  refine Ledger.find?_merge_of_bindsLast hbinds fun later hlater => ?_
  obtain ⟨w, hw, hstored⟩ := exists_of_mem_forall₂ habove hlater
  exact hafter w hw later hstored

/-- Where some unit that is reached binds a declaration, one of them decides its target, and none of
the others imports that one. -/
theorem exists_deciding
    (hbound : ∃ v log, a.graph.Reaches [unit] v ∧ a.stored v = .ok log ∧ log.Binds decl) :
    ∃ v log target, a.graph.Reaches [unit] v ∧ a.stored v = .ok log ∧ log.BindsLast decl target ∧
      (Ledger.merge logs).find? decl = some target ∧
      ∀ w other, a.graph.Reaches [unit] w → a.stored w = .ok other → other.Binds decl →
        ¬ TransGen a.graph.Imports w v := by
  obtain ⟨v, log, hreach, hlog, hbinds⟩ := hbound
  obtain ⟨before, v, after, hsplit, ⟨log, hlog, hbinds⟩, hafter⟩ :=
    exists_last_split (p := fun v => ∃ log, a.stored v = .ok log ∧ log.Binds decl)
      ⟨v, h.mem_iff.mpr hreach, log, hlog, hbinds⟩
  obtain ⟨target, htarget⟩ := hbinds.exists_bindsLast
  have hfind := h.find?_of_last hsplit hlog htarget fun w hw later hlater hbinds =>
    hafter w hw ⟨later, hlater, hbinds⟩
  refine ⟨v, log, target, h.mem_iff.mp (by simp [hsplit]), hlog, htarget, hfind, ?_⟩
  intro w other hw hother hbinds hpath
  have hnodup := h.nodup
  rw [hsplit, List.nodup_append] at hnodup
  have hv : v ∉ before := fun hmem => hnodup.2.2 v hmem v (by simp) rfl
  -- what binds the declaration does not stand after the deciding unit, but what imports that unit
  -- does
  have hmem := h.mem_iff.mpr hw
  rw [hsplit, List.mem_append, List.mem_cons] at hmem
  rcases hmem with hmem | rfl | hmem
  · obtain ⟨first, second, rfl⟩ := List.mem_iff_append.mp hmem
    have hsplit' : order = first ++ w :: (second ++ v :: after) := by simpa using hsplit
    exact hv (List.mem_append_left _ (h.mem_before hsplit' hpath))
  · exact hv (h.mem_before hsplit hpath)
  · exact hafter w hmem ⟨other, hother, hbinds⟩

end Layers

/-- The ledger at the end of a unit has one block of lines for each unit that is reached, after the
blocks of all that the unit imports, directly or through others. A declaration has a target exactly
if some unit that is reached binds it. The target is the last one that some unit records which none
of the others that bind the declaration imports; where the unit itself binds the declaration, it is
the last target that it records. -/
theorem ledgerOf_layers {a : Archive} {unit : String} {ledger : Ledger}
    (h : (ledgerOf unit a).1 = .ok ledger) :
    (∃ order logs, order.Nodup ∧ (∀ v, v ∈ order ↔ a.graph.Reaches [unit] v) ∧
      (∀ before v after w, order = before ++ v :: after → TransGen a.graph.Imports v w →
        w ∈ before) ∧
      List.Forall₂ (fun v log => a.stored v = .ok log) order logs ∧
      ledger.exports = (logs.map UnitLog.lines).flatten) ∧
    ∀ decl,
      (ledger.find? decl = none ↔
        ∀ v log, a.graph.Reaches [unit] v → a.stored v = .ok log → ¬ log.Binds decl) ∧
      (∀ target, ledger.find? decl = some target →
        ∃ v log, a.graph.Reaches [unit] v ∧ a.stored v = .ok log ∧ log.BindsLast decl target ∧
          ∀ w other, a.graph.Reaches [unit] w → a.stored w = .ok other → other.Binds decl →
            ¬ TransGen a.graph.Imports w v) ∧
      ∀ log target, a.stored unit = .ok log → log.BindsLast decl target →
        ledger.find? decl = some target := by
  obtain ⟨order, logs, hlayers, rfl⟩ := exists_layers_of_ledgerOf h
  refine ⟨⟨order, logs, hlayers.nodup, fun _ => hlayers.mem_iff,
    fun _ _ _ _ => hlayers.mem_before, hlayers.stored, Ledger.exports_merge logs⟩, fun decl => ?_⟩
  have hbound {target : String} (hfind : (Ledger.merge logs).find? decl = some target) :
      ∃ v log, a.graph.Reaches [unit] v ∧ a.stored v = .ok log ∧ log.Binds decl := by
    by_contra hnone
    rw [Ledger.find?_merge_of_not_binds] at hfind
    · cases hfind
    · intro log hlog hbinds
      obtain ⟨v, hv, hstored⟩ := exists_of_mem_forall₂ hlayers.stored hlog
      exact hnone ⟨v, log, hlayers.mem_iff.mp hv, hstored, hbinds⟩
  refine ⟨⟨fun hnone v log hv hlog hbinds => ?_, fun hnone => ?_⟩, fun target hfind => ?_, ?_⟩
  · obtain ⟨_, _, _, _, _, _, hfind, _⟩ := hlayers.exists_deciding ⟨v, log, hv, hlog, hbinds⟩
    rw [hnone] at hfind
    cases hfind
  · rw [Option.eq_none_iff_forall_ne_some]
    intro target hfind
    obtain ⟨v, log, hv, hlog, hbinds⟩ := hbound hfind
    exact hnone v log hv hlog hbinds
  · obtain ⟨v, log, target', hv, hlog, hlast, hfind', hothers⟩ :=
      hlayers.exists_deciding (hbound hfind)
    obtain rfl : target' = target := Option.some.inj (hfind'.symm.trans hfind)
    exact ⟨v, log, hv, hlog, hlast, hothers⟩
  · intro log target hlog hlast
    obtain ⟨others, hothers⟩ := hlayers.last
    exact hlayers.find?_of_last hothers hlog hlast fun _ hw => absurd hw List.not_mem_nil

/-- Four remembered units, of which two import the same one and are imported by the same one. Three
of them bind the same declaration and three of them export a line. -/
def layered : Archive where
  buildDir := "build"
  suffix := "log"
  files := {}
  known := [("top", ⟨"top", ["left", "right"], [.publish "axiom T: One == One"]⟩),
    ("left", ⟨"left", ["base"], [.bind "one" "Left", .publish "axiom L: Left == Left"]⟩),
    ("right", ⟨"right", ["base"], [.bind "one" "Wrong", .bind "one" "Right"]⟩),
    ("base", ⟨"base", [], [.bind "one" "One", .publish "axiom B: One == One", .bind "two" "Two"]⟩)]

/-- A declaration that several units bind has the last target of an upper one, and a declaration
that no unit binds has none. -/
theorem ledgerOf_layers_diamond :
    ∃ ledger, (ledgerOf "top" layered).1 = .ok ledger ∧
      ledger.exports = ["axiom B: One == One", "axiom L: Left == Left", "axiom T: One == One"] ∧
      (ledger.find? "three" = none ↔
        ∀ v log, layered.graph.Reaches ["top"] v → layered.stored v = .ok log →
          ¬ log.Binds "three") ∧
      ∃ v log, layered.graph.Reaches ["top"] v ∧ layered.stored v = .ok log ∧
        log.BindsLast "one" "Right" ∧
        ∀ w other, layered.graph.Reaches ["top"] w → layered.stored w = .ok other →
          other.Binds "one" → ¬ TransGen layered.graph.Imports w v := by
  have hledger : ∃ ledger, (ledgerOf "top" layered).1 = .ok ledger ∧
      ledger.exports = ["axiom B: One == One", "axiom L: Left == Left", "axiom T: One == One"] ∧
      ledger.find? "one" = some "Right" := ⟨_, rfl, rfl, rfl⟩
  obtain ⟨ledger, h, hexports, hone⟩ := hledger
  obtain ⟨_, hdecl⟩ := ledgerOf_layers h
  exact ⟨ledger, h, hexports, (hdecl "three").1, (hdecl "one").2.1 "Right" hone⟩

end Archive

end PropExport
