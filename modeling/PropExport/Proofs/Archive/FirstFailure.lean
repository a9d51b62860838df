import PropExport.Proofs.Archive.Closure
import PropExport.Proofs.Imports.FirstFailure

/-!
# Why imports cannot be finished

What the failure says when finishing imports fails. A cycle that is reported is one of the
stored import lists, found along imports from one of the given units. Any other failure is that
of loading a unit that is given or imported by one that was reached. In both cases it is the
failure of the first given unit that cannot be finished on its own.
-/

namespace PropExport.Archive

open ImportGraph Relation

/-- What is reached is given or imported by something that is reached. -/
theorem mem_or_imported_of_reaches {a : Archive} {names : List String} {unit : String}
    (h : a.graph.Reaches names unit) :
    unit ∈ names ∨ ∃ other log, a.graph.Reaches names other ∧ a.stored other = .ok log ∧
      unit ∈ log.imports := by
  obtain ⟨name, hname, hpath⟩ := h
  rcases hpath.cases_tail with rfl | ⟨other, hother, himports⟩
  · exact .inl hname
  · obtain ⟨log, hlog, hunit⟩ := exists_stored_of_imports himports
    exact .inr ⟨other, log, ⟨name, hname, hother⟩, hlog, hunit⟩

/-- Finishing imports fails because a unit that is reached fails to load, or because imports that
lead away from a given unit come back to a unit on their way. -/
theorem closure_eq_error_cases {a : Archive} {names : List String} {e : Failure}
    (h : (closure names a).1 = .error e) :
    (∃ unit, a.graph.Reaches names unit ∧ a.stored unit = .error e) ∨
    ∃ first path last, first ∈ names ∧ e = .importCycle (path ++ [last]) ∧
      (path ++ [last]).head? = some first ∧ List.IsChain a.graph.Imports (path ++ [last]) ∧
      path.Nodup ∧ last ∈ path := by
  obtain ⟨_, hwalk, _⟩ := closure_apply names a
  rw [hwalk] at h
  simpa only [graph_eq_error_iff] using
    foldlM_visit_eq_error_cases a.graph_loadsAtMost (Nat.lt_succ_self _) h

/-- Finishing imports fails at one of the given units, after those before it were finished, as it
fails for this unit alone. -/
theorem closure_eq_error_split {a : Archive} {names : List String} {e : Failure}
    (h : (closure names a).1 = .error e) :
    ∃ before name after, names = before ++ name :: after ∧
      (∃ order, (closure before a).1 = .ok order) ∧ (closure [name] a).1 = .error e := by
  obtain ⟨_, hwalk, _⟩ := closure_apply names a
  rw [hwalk] at h
  obtain ⟨before, name, after, rfl, ⟨order, hbefore⟩, hname⟩ :=
    foldlM_visit_eq_error_split a.graph_loadsAtMost (Nat.lt_succ_self _) h
  obtain ⟨_, hwalk', _⟩ := closure_apply before a
  obtain ⟨_, hwalk'', _⟩ := closure_apply [name] a
  refine ⟨before, name, after, rfl, ⟨order, ?_⟩, ?_⟩
  · rw [hwalk', hbefore]
  · rw [hwalk'', hname]

/-- A cycle that is reported starts at a given unit, goes along stored import lists through
different units and comes back to one of them. Any other failure is what loading a unit gives that
is given or imported by a unit that is reached. And whatever the failure is, the units before some
given unit can be finished, and finishing this one alone fails in the same way, before and after the
others were finished. -/
theorem closure_reports_first_failure {a : Archive} {names : List String} {e : Failure}
    (h : (closure names a).1 = .error e) :
    (∀ chain, e = .importCycle chain →
      e.report = "import cycle: " ++ " -> ".intercalate chain ∧
      ∃ first path last, first ∈ names ∧ chain = path ++ [last] ∧ chain.head? = some first ∧
        List.IsChain (fun unit next => ∃ log, a.stored unit = .ok log ∧ next ∈ log.imports) chain ∧
        path.Nodup ∧ last ∈ path) ∧
    ((∀ chain, e ≠ .importCycle chain) →
      ∃ unit, (unit ∈ names ∨ ∃ other log, a.graph.Reaches names other ∧ a.stored other = .ok log ∧
          unit ∈ log.imports) ∧
        (load unit a).1 = .error e) ∧
    ∃ before name after, names = before ++ name :: after ∧
      ∃ order b, closure before a = (.ok order, b) ∧ (closure [name] a).1 = .error e ∧
        (closure [name] b).1 = .error e := by
  refine ⟨?_, fun hcycle => ?_, ?_⟩
  · rintro chain rfl
    refine ⟨rfl, ?_⟩
    rcases closure_eq_error_cases h with
      ⟨unit, _, hunit⟩ | ⟨first, path, last, hfirst, heq, hhead, hchain, hnodup, hlast⟩
    · exact absurd hunit (stored_ne_importCycle a unit chain)
    · obtain rfl := Failure.importCycle.inj heq
      exact ⟨first, path, last, hfirst, rfl, hhead,
        hchain.imp fun _ _ himports => exists_stored_of_imports himports, hnodup, hlast⟩
  · rcases closure_eq_error_cases h with ⟨unit, hreach, hunit⟩ | ⟨_, _, _, _, heq, _⟩
    · exact ⟨unit, mem_or_imported_of_reaches hreach, hunit⟩
    · exact absurd heq (hcycle _)
  · obtain ⟨before, name, after, hsplit, ⟨order, hbefore⟩, hname⟩ := closure_eq_error_split h
    obtain ⟨b, hwalk, hrecalls, _⟩ := closure_apply before a
    -- what is remembered after the units before changes nothing
    have hafter : (closure [name] b).1 = (closure [name] a).1 :=
      closure_congr fun unit _ => congrFun hrecalls.graph_eq unit
    rw [hwalk] at hbefore
    exact ⟨before, name, after, hsplit, order, b, hwalk.trans (Prod.ext hbefore rfl), hname,
      hafter.trans hname⟩

/-- Three remembered units, of which two import each other and one is imported by both. -/
def entangled : Archive where
  buildDir := "build"
  suffix := "log"
  files := {}
  known := [("even", ⟨"even", ["base", "odd"], []⟩), ("odd", ⟨"odd", ["base", "even"], []⟩),
    ("base", ⟨"base", [], []⟩)]

/-- The unit that is finished first hides nothing of the cycle that the second one is on, nor of the
log that is missing where it stands second. -/
theorem closure_reports_first_failure_entangled :
    let cycle := Failure.importCycle ["even", "odd", "even"]
    let missing := Failure.notCompiled "missing" "build/missing.log"
    (closure ["base", "even", "missing"] entangled).1 = .error cycle ∧
    cycle.report = "import cycle: even -> odd -> even" ∧
    (∃ first path last, first ∈ ["base", "even", "missing"] ∧
      ["even", "odd", "even"] = path ++ [last] ∧ ["even", "odd", "even"].head? = some first ∧
      List.IsChain (fun unit next => ∃ log, entangled.stored unit = .ok log ∧ next ∈ log.imports)
        ["even", "odd", "even"] ∧
      path.Nodup ∧ last ∈ path) ∧
    (closure ["base", "missing", "even"] entangled).1 = .error missing ∧
    (∃ unit, (unit ∈ ["base", "missing", "even"] ∨
        ∃ other log, entangled.graph.Reaches ["base", "missing", "even"] other ∧
          entangled.stored other = .ok log ∧ unit ∈ log.imports) ∧
      (load unit entangled).1 = .error missing) ∧
    ∃ before name after, ["base", "missing", "even"] = before ++ name :: after ∧
      ∃ order b, closure before entangled = (.ok order, b) ∧
        (closure [name] entangled).1 = .error missing ∧ (closure [name] b).1 = .error missing := by
  intro cycle missing
  have hcycle : (closure ["base", "even", "missing"] entangled).1 = .error cycle := rfl
  have hmissing : (closure ["base", "missing", "even"] entangled).1 = .error missing := rfl
  obtain ⟨hreport, hchain⟩ := (closure_reports_first_failure hcycle).1 _ rfl
  obtain ⟨_, hload, hsplit⟩ := closure_reports_first_failure hmissing
  exact ⟨hcycle, hreport, hchain, hmissing, hload (by simp [missing]), hsplit⟩

end PropExport.Archive
