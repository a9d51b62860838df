import Mathlib.Data.List.Basic
import PropExport.Files.Tree
import PropExport.Proofs.Results

/-!
# Reading and writing files

A file that was written is read back as written. Writing a file and creating directories leave every
file at another location as it was. A path keeps leading to the same location as long as directories
stay directories.
-/

namespace PropExport.FileTree

variable {tree tree' : FileTree} {loc : Location} {node : Node} {path content : String}

/-- A file is read at the location that its path leads to. -/
theorem read_eq_ok_iff :
    tree.read path = .ok content ↔
      ∃ loc, tree.resolve path = .ok loc ∧ tree.node? loc = some (.file content) := by
  unfold read stat
  cases hresolve : tree.resolve path with
  | error e => simp [bind, Except.bind]
  | ok loc =>
    cases hnode : tree.node? loc with
    | none => simp [bind, Except.bind, hnode, throw, throwThe, MonadExceptOf.throw]
    | some node =>
      cases node <;>
        simp [bind, Except.bind, hnode, pure, Except.pure, throw, throwThe, MonadExceptOf.throw]

/-- The locations at which there is always a directory. -/
def IsFixed (loc : Location) : Prop :=
  loc = ["/"] ∨ Location.isOutward loc

instance (loc : Location) : Decidable (IsFixed loc) :=
  inferInstanceAs (Decidable (_ ∨ _))

/-- At a fixed location there is a directory in every tree. -/
theorem node?_of_isFixed (h : IsFixed loc) : tree.node? loc = some .directory :=
  if_pos h

private theorem node?_of_not_isFixed (h : ¬ IsFixed loc) : tree.node? loc = tree.nodes.lookup loc :=
  if_neg h

/-- A location without a directory is not fixed. -/
theorem not_isFixed (h : tree.node? loc ≠ some .directory) : ¬ IsFixed loc :=
  fun hfixed => h (node?_of_isFixed hfixed)

/-- A file is listed. -/
theorem mem_nodes_of_node? (h : tree.node? loc = some (.file content)) :
    (loc, Node.file content) ∈ tree.nodes := by
  by_cases hfixed : IsFixed loc
  · rw [node?_of_isFixed hfixed] at h
    cases h
  · rw [node?_of_not_isFixed hfixed] at h
    obtain ⟨before, after, hnodes, _⟩ := List.lookup_eq_some_iff.mp h
    rw [hnodes]
    simp

private theorem lookup_map_put {nodes : List (Location × Node)} {loc other : Location}
    {node : Node} :
    (nodes.map fun (l, old) => if l = loc then (l, node) else (l, old)).lookup other =
      if other = loc then (nodes.lookup other).map fun _ => node else nodes.lookup other := by
  induction nodes with
  | nil => simp
  | cons first nodes ih =>
    obtain ⟨l, old⟩ := first
    by_cases hl : l = loc <;> by_cases hother : other = l <;>
      simp_all [List.lookup_cons, beq_eq_false_iff_ne.mpr]

/-- What was put at a location is there. -/
theorem node?_put_self (h : ¬ IsFixed loc) : (tree.put loc node).node? loc = some node := by
  rw [node?_of_not_isFixed h]
  unfold put
  by_cases hany : tree.nodes.any (·.1 == loc) = true
  · rw [if_pos hany]
    dsimp only
    rw [lookup_map_put, if_pos rfl]
    obtain ⟨entry, hentry, hkey⟩ := List.any_eq_true.mp hany
    have hsome : (tree.nodes.lookup loc).isSome = true :=
      List.lookup_isSome_iff.mpr ⟨entry, hentry, by simpa using BEq.symm hkey⟩
    obtain ⟨old, hold⟩ := Option.isSome_iff_exists.mp hsome
    rw [hold]
    rfl
  · rw [if_neg hany]
    have hnone : tree.nodes.lookup loc = none := by
      refine List.lookup_eq_none_iff.mpr fun entry hentry => ?_
      simp only [List.any_eq_true, not_exists, not_and] at hany
      simpa [BEq.comm] using hany entry hentry
    rw [List.lookup_append, hnone]
    simp

/-- Putting something at a location changes no other location. -/
theorem node?_put_of_ne {other : Location} (h : other ≠ loc) :
    (tree.put loc node).node? other = tree.node? other := by
  by_cases hfixed : IsFixed other
  · rw [node?_of_isFixed hfixed, node?_of_isFixed hfixed]
  · rw [node?_of_not_isFixed hfixed, node?_of_not_isFixed hfixed]
    unfold put
    by_cases hany : tree.nodes.any (·.1 == loc) = true
    · rw [if_pos hany]
      dsimp only
      rw [lookup_map_put, if_neg h]
    · rw [if_neg hany]
      dsimp only
      rw [List.lookup_append]
      simp [List.lookup_cons, beq_eq_false_iff_ne.mpr h]

/-- What is put at a location last is what counts. -/
theorem put_put (tree : FileTree) (loc : Location) (old node : Node) :
    (tree.put loc old).put loc node = tree.put loc node := by
  unfold put
  by_cases hany : tree.nodes.any (·.1 == loc) = true
  · have hany' : (tree.nodes.map fun (l, was) => if l = loc then (l, old) else (l, was)).any
        (·.1 == loc) = true := by
      obtain ⟨entry, hentry, hkey⟩ := List.any_eq_true.mp hany
      refine List.any_eq_true.mpr ⟨(entry.1, old), List.mem_map.mpr ⟨entry, hentry, ?_⟩, hkey⟩
      simp [eq_of_beq hkey]
    rw [if_pos hany, if_pos hany', if_pos hany]
    refine congrArg FileTree.mk ?_
    rw [List.map_map]
    refine List.map_congr_left fun entry _ => ?_
    by_cases hkey : entry.1 = loc <;> simp [hkey]
  · have hother (entry : Location × Node) (hentry : entry ∈ tree.nodes) : entry.1 ≠ loc := by
      rintro rfl
      exact hany (List.any_eq_true.mpr ⟨entry, hentry, by simp⟩)
    have hmap : (tree.nodes.map fun (l, was) => if l = loc then (l, node) else (l, was)) =
        tree.nodes := by
      refine (List.map_congr_left fun entry hentry => ?_).trans (List.map_id _)
      simp [hother entry hentry]
    rw [if_neg hany, if_pos (by simp), if_neg hany]
    simp [hmap]

/-- Things that are put at different locations may be put in either order. -/
theorem node?_put_comm {other : Location} {node' : Node} (hne : other ≠ loc) (hloc : ¬ IsFixed loc)
    (hother : ¬ IsFixed other) (place : Location) :
    ((tree.put loc node).put other node').node? place =
      ((tree.put other node').put loc node).node? place := by
  by_cases hplace : place = loc
  · subst hplace
    rw [node?_put_of_ne (Ne.symm hne), node?_put_self hloc, node?_put_self hloc]
  by_cases hplace' : place = other
  · subst hplace'
    rw [node?_put_self hother, node?_put_of_ne hne, node?_put_self hother]
  · rw [node?_put_of_ne hplace', node?_put_of_ne hplace, node?_put_of_ne hplace,
      node?_put_of_ne hplace']

/-- All directories of one tree are directories of another. -/
def KeepsDirs (tree tree' : FileTree) : Prop :=
  ∀ loc, tree.node? loc = some .directory → tree'.node? loc = some .directory

/-- All that is in one tree is in another. -/
def Keeps (tree tree' : FileTree) : Prop :=
  ∀ loc node, tree.node? loc = some node → tree'.node? loc = some node

/-- A tree keeps what is in it. -/
theorem Keeps.refl (tree : FileTree) : tree.Keeps tree :=
  fun _ _ h => h

/-- Keeping is transitive. -/
theorem Keeps.trans {tree'' : FileTree} (h : tree.Keeps tree') (h' : tree'.Keeps tree'') :
    tree.Keeps tree'' :=
  fun loc node hnode => h' loc node (h loc node hnode)

/-- What keeps everything keeps directories. -/
theorem Keeps.dirs (h : tree.Keeps tree') : tree.KeepsDirs tree' :=
  fun loc hdir => h loc .directory hdir

/-- Something new is put where nothing was. -/
theorem keeps_put (h : tree.node? loc = none) (node : Node) : tree.Keeps (tree.put loc node) := by
  intro other old hold
  have hne : other ≠ loc := by
    rintro rfl
    rw [h] at hold
    cases hold
  rwa [node?_put_of_ne hne]

/-- A file is put where no directory was. -/
theorem keepsDirs_put (h : tree.node? loc ≠ some .directory) (node : Node) :
    tree.KeepsDirs (tree.put loc node) := by
  intro other hdir
  have hne : other ≠ loc := by
    rintro rfl
    exact h hdir
  rwa [node?_put_of_ne hne]

/-- Putting a file creates no directory. -/
theorem keepsDirs_of_put (h : tree.node? loc ≠ some .directory) (content : String) :
    (tree.put loc (.file content)).KeepsDirs tree := by
  intro other hdir
  have hne : other ≠ loc := by
    rintro rfl
    rw [node?_put_self (not_isFixed h)] at hdir
    cases hdir
  rwa [node?_put_of_ne hne] at hdir

/-- Following a part of a path needs a directory to stand in and nothing else of the tree. -/
theorem step_eq_ok_iff {part : String} {next : Location} :
    tree.step loc part = .ok next ↔
      tree.node? loc = some .directory ∧
        (if part = "" ∨ part = "." then next = loc
        else if part = ".." then next = loc.parent
        else part.utf8ByteSize ≤ Location.maxName ∧ next = loc ++ [part]) := by
  have hdir : tree.requireDir loc = .ok () ↔ tree.node? loc = some .directory := by
    unfold requireDir
    split <;> simp_all
  unfold step
  by_cases hnode : tree.node? loc = some .directory
  · rw [hdir.mpr hnode]
    simp only [hnode, true_and, bind, Except.bind]
    split
    · simp [pure, Except.pure, eq_comm]
    · split
      · simp [pure, Except.pure, eq_comm]
      · split
        · simp [throw, throwThe, MonadExceptOf.throw]; omega
        · simp [pure, Except.pure, eq_comm]; omega
  · cases hreq : tree.requireDir loc with
    | error e => simp [hnode, bind, Except.bind]
    | ok u => exact absurd (hdir.mp hreq) hnode

/-- A part of a path leads to the same location. -/
theorem KeepsDirs.step (h : tree.KeepsDirs tree') {part : String} {next : Location}
    (hstep : tree.step loc part = .ok next) : tree'.step loc part = .ok next := by
  rw [step_eq_ok_iff] at hstep ⊢
  exact ⟨h loc hstep.1, hstep.2⟩

/-- Parts of a path lead to the same location one after the other. -/
theorem KeepsDirs.foldlM (h : tree.KeepsDirs tree') {parts : List String} {next : Location}
    (hparts : parts.foldlM tree.step loc = .ok next) : parts.foldlM tree'.step loc = .ok next := by
  induction parts generalizing loc with
  | nil => exact hparts
  | cons part parts ih =>
    rw [List.foldlM_cons] at hparts ⊢
    obtain ⟨mid, hstep, hrest⟩ := exists_of_bind_eq_ok hparts
    rw [h.step hstep]
    exact ih hrest

/-- A path leads to the same location. -/
theorem KeepsDirs.resolve (h : tree.KeepsDirs tree') (hpath : tree.resolve path = .ok loc) :
    tree'.resolve path = .ok loc := by
  unfold FileTree.resolve at hpath ⊢
  obtain ⟨start, hstart, hparts⟩ := exists_of_bind_eq_ok hpath
  rw [hstart]
  exact h.foldlM hparts

/-- A file that was readable still is. -/
theorem Keeps.read (h : tree.Keeps tree') (hread : tree.read path = .ok content) :
    tree'.read path = .ok content := by
  obtain ⟨loc, hpath, hnode⟩ := read_eq_ok_iff.mp hread
  exact read_eq_ok_iff.mpr ⟨loc, h.dirs.resolve hpath, h loc _ hnode⟩

/-- What a path leads to, if anything, is not changed by putting a file somewhere else. -/
theorem stat_put_of_resolve_ne (hnode : tree.node? loc ≠ some .directory)
    (h : tree.resolve path ≠ .ok loc) (text : String) :
    ((tree.put loc (.file text)).stat path).toOption = (tree.stat path).toOption := by
  unfold stat
  cases hresolve : tree.resolve path with
  | ok there =>
    have hne : there ≠ loc := by
      rintro rfl
      exact h hresolve
    rw [(keepsDirs_put hnode (.file text)).resolve hresolve]
    simp only [bind, Except.bind, node?_put_of_ne hne]
  | error e =>
    cases hlater : (tree.put loc (.file text)).resolve path with
    | error e' => rfl
    | ok there =>
      rw [(keepsDirs_of_put hnode text).resolve hlater] at hresolve
      cases hresolve

/-- Where no slash ends a path, its last part is the one that is named. -/
theorem parts_of_split {others : List String} {last : String}
    (h : Path.split path = (others, last, false)) : Path.parts path = others ++ [last] := by
  unfold Path.split at h
  cases hparts : (Path.parts path).reverse with
  | nil => simp [hparts] at h
  | cons first rest =>
    by_cases hfirst : first = ""
    · simp only [hparts, hfirst] at h
      split at h <;> simp at h
    · have hdrop : (first :: rest).dropWhile (· == "") = first :: rest := by
        rw [List.dropWhile_cons_of_neg (by simpa using hfirst)]
      simp only [hparts, hdrop, Prod.mk.injEq] at h
      rw [← List.reverse_reverse (Path.parts path), hparts, ← h.1, ← h.2.1, List.reverse_cons]

/-- A path without a slash at its end leads to what its last part names. -/
theorem resolve_of_resolveName (h : tree.resolveName path = .ok (some loc))
    (hslash : (Path.split path).2.2 = false) : tree.resolve path = .ok loc := by
  rcases hsplit : Path.split path with ⟨others, last, slash⟩
  obtain rfl : slash = false := by simpa [hsplit] using hslash
  unfold resolveName at h
  rw [hsplit] at h
  obtain ⟨start, hstart, hrest⟩ := exists_of_bind_eq_ok h
  obtain ⟨dir, hdir, hrest⟩ := exists_of_bind_eq_ok hrest
  obtain ⟨next, hstep, hnamed⟩ := exists_of_bind_eq_ok hrest
  obtain rfl : next = loc := by
    have hnamed := Except.ok.inj hnamed
    split at hnamed
    · cases hnamed
    · exact Option.some.inj hnamed
  unfold resolve
  rw [hstart, parts_of_split hsplit]
  change (others ++ [last]).foldlM tree.step start = .ok next
  rw [List.foldlM_append, hdir]
  change [last].foldlM tree.step dir = .ok next
  rw [List.foldlM_cons, hstep]
  rfl

/-- Where a file is written: at the location that its path names, unless the path asks for a
directory or there is one. -/
def target (tree : FileTree) (path : String) : Except FileError Location := do
  match ← tree.resolveName path with
  | none => throw .isDirectory
  | some loc =>
    if (Path.split path).2.2 then throw .isDirectory
    match tree.node? loc with
    | some .directory => throw .isDirectory
    | _ => return loc

/-- A file is written at its target, and nothing else changes. -/
theorem write_eq_map_target (tree : FileTree) (path content : String) :
    tree.write path content = (tree.target path).map fun loc => tree.put loc (.file content) := by
  unfold write target
  rcases tree.resolveName path with e | _ | loc
  · rfl
  · rfl
  · dsimp only [bind, Except.bind]
    split
    · rfl
    · cases tree.node? loc with
      | none => rfl
      | some node => cases node <;> rfl

/-- A file is written where its path names a location without a directory and without a slash behind
it. -/
theorem target_eq_ok_iff : tree.target path = .ok loc ↔
    tree.resolveName path = .ok (some loc) ∧ (Path.split path).2.2 = false ∧
      tree.node? loc ≠ some .directory := by
  unfold target
  constructor
  · intro h
    obtain ⟨named, hname, hrest⟩ := exists_of_bind_eq_ok h
    cases named with
    | none => cases hrest
    | some named =>
      dsimp only at hrest
      split at hrest
      · cases hrest
      next hslash =>
      split at hrest
      · cases hrest
      next hnode =>
      cases hrest
      exact ⟨hname, by simpa using hslash, hnode⟩
  · rintro ⟨hname, hslash, hnode⟩
    refine bind_eq_ok hname ?_
    dsimp only
    rw [if_neg (by simp [hslash])]
    split
    · next hdir => exact absurd hdir hnode
    · rfl

/-- A file is written at the location that its path leads to, and nothing else changes. -/
theorem write_eq_ok (h : tree.write path content = .ok tree') :
    ∃ loc, tree.resolve path = .ok loc ∧ tree.node? loc ≠ some .directory ∧
      tree' = tree.put loc (.file content) := by
  rw [write_eq_map_target] at h
  obtain ⟨loc, htarget, rfl⟩ := exists_of_map_eq_ok h
  obtain ⟨hname, hslash, hnode⟩ := target_eq_ok_iff.mp htarget
  exact ⟨loc, resolve_of_resolveName hname hslash, hnode, rfl⟩

section Write

variable (h : tree.write path content = .ok tree')

include h

/-- Writing a file leaves all directories in place. -/
theorem keepsDirs_write : tree.KeepsDirs tree' := by
  obtain ⟨loc, _, hnode, rfl⟩ := write_eq_ok h
  exact keepsDirs_put hnode _

/-- A path that leads to the location of a file that was written reads what was written. -/
theorem read_write_of_resolve_eq {other : String} (heq : tree.resolve other = tree.resolve path) :
    tree'.read other = .ok content := by
  have hdirs := keepsDirs_write h
  obtain ⟨loc, hpath, hnode, rfl⟩ := write_eq_ok h
  exact read_eq_ok_iff.mpr
    ⟨loc, hdirs.resolve (heq.trans hpath), node?_put_self (not_isFixed hnode)⟩

/-- A file at another location is read as before. -/
theorem read_write_of_resolve_ne {other text : String} (hread : tree.read other = .ok text)
    (hne : tree.resolve other ≠ tree.resolve path) : tree'.read other = .ok text := by
  have hdirs := keepsDirs_write h
  obtain ⟨loc, hpath, _, rfl⟩ := write_eq_ok h
  obtain ⟨loc', hother, hnode⟩ := read_eq_ok_iff.mp hread
  have hloc : loc' ≠ loc := by
    rintro rfl
    exact hne (hother.trans hpath.symm)
  exact read_eq_ok_iff.mpr ⟨loc', hdirs.resolve hother, by rwa [node?_put_of_ne hloc]⟩

/-- Every file of the new tree is the one that was written or was there before. -/
theorem file_of_write {node : Node} (hfile : tree'.node? loc = some node) :
    tree'.resolve path = .ok loc ∧ node = .file content ∨ tree.node? loc = some node := by
  have hdirs := keepsDirs_write h
  obtain ⟨target, hpath, hnode, rfl⟩ := write_eq_ok h
  by_cases hloc : loc = target
  · subst hloc
    rw [node?_put_self (not_isFixed hnode)] at hfile
    cases hfile
    exact .inl ⟨hdirs.resolve hpath, rfl⟩
  · rw [node?_put_of_ne hloc] at hfile
    exact .inr hfile

end Write

/-- One tree comes from another by creating directories. -/
structure AddsDirs (tree tree' : FileTree) : Prop where
  keeps : tree.Keeps tree'
  file_of_file : ∀ {loc node}, node ≠ .directory → tree'.node? loc = some node →
    tree.node? loc = some node

/-- Creating no directory at all. -/
theorem AddsDirs.refl (tree : FileTree) : tree.AddsDirs tree :=
  ⟨.refl tree, fun _ hfile => hfile⟩

/-- Creating directories one after the other. -/
theorem AddsDirs.trans {tree'' : FileTree} (h : tree.AddsDirs tree') (h' : tree'.AddsDirs tree'') :
    tree.AddsDirs tree'' :=
  ⟨h.keeps.trans h'.keeps, fun hnode hfile =>
    h.file_of_file hnode (h'.file_of_file hnode hfile)⟩

/-- A directory is put where nothing was. -/
theorem addsDirs_put (h : tree.node? loc = none) : tree.AddsDirs (tree.put loc .directory) := by
  refine ⟨keeps_put h _, ?_⟩
  intro other node hnode hfile
  have hfree : tree.node? loc ≠ some .directory := by simp [h]
  have hne : other ≠ loc := by
    rintro rfl
    rw [node?_put_self (not_isFixed hfree)] at hfile
    exact hnode (Option.some.inj hfile).symm
  rwa [node?_put_of_ne hne] at hfile

/-- A directory is created where nothing was, and nothing else changes. -/
theorem createDir_eq_ok (h : tree.createDir path = .ok tree') :
    ∃ loc, tree.resolveName path = .ok (some loc) ∧ tree.node? loc = none ∧
      tree' = tree.put loc .directory := by
  unfold createDir at h
  obtain ⟨named, hname, hrest⟩ := exists_of_bind_eq_ok h
  cases named with
  | none => cases hrest
  | some loc =>
    cases hnode : tree.node? loc with
    | some node => simp only [hnode] at hrest; cases hrest
    | none =>
      simp only [hnode] at hrest
      cases hrest
      exact ⟨loc, hname, hnode, rfl⟩

private theorem addsDirs_createDir (h : tree.createDir path = .ok tree') : tree.AddsDirs tree' := by
  obtain ⟨loc, _, hnode, rfl⟩ := createDir_eq_ok h
  exact addsDirs_put hnode

private theorem addsDirs_ensureDir (h : tree.ensureDir path = .ok tree') : tree.AddsDirs tree' := by
  unfold ensureDir at h
  cases hcreate : tree.createDir path with
  | ok created =>
    obtain rfl : created = tree' := by simpa [hcreate] using h
    exact addsDirs_createDir hcreate
  | error e =>
    simp only [hcreate] at h
    split at h
    · cases h
      exact .refl tree
    · cases h

private theorem addsDirs_ensureDirs (n : Nat) (tree : FileTree) (path : String) :
    tree.AddsDirs (ensureDirs n tree path).2 := by
  induction n generalizing tree path with
  | zero => exact .refl tree
  | succ n ih =>
    unfold ensureDirs
    split
    · exact .refl tree
    · split
      · next hensure => exact addsDirs_ensureDir hensure
      · have hparent := ih tree ((Path.parent? path).getD "")
        split
        · next hrec => rw [hrec] at hparent; exact hparent
        · next hrec =>
          rw [hrec] at hparent
          split
          · next hensure => exact hparent.trans (addsDirs_ensureDir hensure)
          · exact hparent
      · exact .refl tree

/-- Creating directories leaves all that is there in place and writes no file. -/
theorem addsDirs_createDirs (tree : FileTree) (path : String) :
    tree.AddsDirs (tree.createDirs path).2 :=
  addsDirs_ensureDirs _ tree path

end PropExport.FileTree
