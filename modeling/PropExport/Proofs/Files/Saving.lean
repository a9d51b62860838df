import PropExport.Failure
import PropExport.Proofs.Files.Directories

/-!
# Saving files

Writing a file after creating the directory that it belongs to. Doing so twice is doing it once, and
files may be saved in either order where their paths lead to different locations, as different names
in one directory do.
-/

namespace PropExport

/-- Two outcomes are the same, up to the reason why a directory cannot be created. -/
inductive Agree {α : Type} : Except Failure α → Except Failure α → Prop
  | same (outcome : Except Failure α) : Agree outcome outcome
  | createDir (path : String) (e e' : FileError) :
      Agree (.error (.createDir path e)) (.error (.createDir path e'))

/-- Outcomes that agree still do after the same is done with their results. -/
theorem Agree.map {α β : Type} {x y : Except Failure α} (h : Agree x y) (f : α → β) :
    Agree (x.map f) (y.map f) := by
  cases h with
  | same => exact .same _
  | createDir => exact .createDir _ _ _

namespace FileTree

/-- Writes a file, and gives the tree also where that fails. -/
def place (tree : FileTree) (path content : String) : Except Failure String × FileTree :=
  match tree.write path content with
  | .error e => (.error (.write path e), tree)
  | .ok written => (.ok path, written)

/-- Writes a file after creating a directory, and gives the tree also where that fails. -/
def save (tree : FileTree) (dir path content : String) : Except Failure String × FileTree :=
  match tree.createDirs dir with
  | (.error e, created) => (.error (.createDir dir e), created)
  | (.ok (), created) => created.place path content

section Place

variable {tree : FileTree} {path content : String}

private theorem place_of_target_error {e : FileError} (h : tree.target path = .error e) :
    tree.place path content = (.error (.write path e), tree) := by
  rw [place, write_eq_map_target, h]
  rfl

private theorem place_of_target_ok {loc : Location} (h : tree.target path = .ok loc) :
    tree.place path content = (.ok path, tree.put loc (.file content)) := by
  rw [place, write_eq_map_target, h]
  rfl

private theorem keepsDirs_place (tree : FileTree) (path content : String) :
    tree.KeepsDirs (tree.place path content).2 := by
  cases htarget : tree.target path with
  | error e =>
    rw [place_of_target_error htarget]
    exact fun _ hdir => hdir
  | ok loc =>
    rw [place_of_target_ok htarget]
    exact keepsDirs_put (target_eq_ok_iff.mp htarget).2.2 _

/-- A file that was written can be written again, and nothing changes. -/
theorem place_place (tree : FileTree) (path content : String) :
    (tree.place path content).2.place path content = tree.place path content := by
  cases htarget : tree.target path with
  | error e => rw [place_of_target_error htarget, place_of_target_error htarget]
  | ok loc =>
    obtain ⟨hname, hslash, hnode⟩ := target_eq_ok_iff.mp htarget
    have hagain : (tree.put loc (.file content)).target path = .ok loc := by
      refine target_eq_ok_iff.mpr ⟨(keepsDirs_put hnode _).resolveName hname, hslash, ?_⟩
      rw [node?_put_self (not_isFixed hnode)]
      simp
    rw [place_of_target_ok htarget, place_of_target_ok hagain, put_put]

end Place

section Save

variable {tree : FileTree} {dir : String}

/-- Saving a file gives the path of the file. -/
theorem eq_of_save_eq_ok {path content found : String}
    (h : (tree.save dir path content).1 = .ok found) : found = path := by
  unfold save place at h
  split at h
  · cases h
  · split at h
    · cases h
    · exact (Except.ok.inj h).symm

private theorem save_of_hasDir (h : tree.HasDir dir) (path content : String) :
    tree.save dir path content = tree.place path content := by
  rw [save, createDirs_of_hasDir h]

/-- A file is not written where its directory cannot be created, neither now nor later. -/
theorem save_of_error {e : FileError} {created : FileTree}
    (h : tree.createDirs dir = (.error e, created)) (path content : String) :
    tree.save dir path content = (.error (.createDir dir e), created) ∧
    ∃ e', created.save dir path content = (.error (.createDir dir e'), created) := by
  obtain ⟨e', hagain⟩ := createDirs_again h
  rw [save, h, save, hagain]
  exact ⟨rfl, e', rfl⟩

private theorem save_of_ok {created : FileTree} (h : tree.createDirs dir = (.ok (), created))
    (path content : String) :
    tree.save dir path content = created.place path content ∧
      (created.place path content).2.HasDir dir := by
  rw [save, h]
  exact ⟨rfl, (keepsDirs_place created path content).hasDir (hasDir_of_createDirs h)⟩

/-- Saving a file twice is saving it once. -/
theorem save_save (tree : FileTree) (dir path content : String) :
    Agree ((tree.save dir path content).2.save dir path content).1
      (tree.save dir path content).1 ∧
    ((tree.save dir path content).2.save dir path content).2 = (tree.save dir path content).2 := by
  rcases hdirs : tree.createDirs dir with ⟨e | u, created⟩
  · obtain ⟨hfirst, e', hagain⟩ := save_of_error hdirs path content
    rw [hfirst, hagain]
    exact ⟨.createDir dir e' e, rfl⟩
  · obtain ⟨hfirst, hhas⟩ := save_of_ok hdirs path content
    rw [hfirst, save_of_hasDir hhas, place_place]
    exact ⟨.same _, rfl⟩

variable {path other : String}

/-- Files may be written in either order where neither path affects the other. -/
theorem place_comm (h : tree.Unaffected path other) (h' : tree.Unaffected other path)
    (content content' : String) :
    ((tree.place path content).2.place other content').1 = (tree.place other content').1 ∧
    ∀ loc, ((tree.place path content).2.place other content').2.node? loc =
      ((tree.place other content').2.place path content).2.node? loc := by
  cases htarget : tree.target path with
  | error e =>
    rw [place_of_target_error htarget]
    refine ⟨rfl, fun loc => ?_⟩
    cases htarget' : tree.target other with
    | error e' => rw [place_of_target_error htarget', place_of_target_error htarget]
    | ok loc' =>
      have hlater := (h' loc' content' htarget').2.trans htarget
      rw [place_of_target_ok htarget', place_of_target_error hlater]
  | ok here =>
    rw [place_of_target_ok htarget]
    obtain ⟨hapart, hkept⟩ := h here content htarget
    cases htarget' : tree.target other with
    | error e' =>
      rw [place_of_target_error htarget', place_of_target_error (hkept.trans htarget'),
        place_of_target_ok htarget]
      exact ⟨rfl, fun _ => rfl⟩
    | ok there =>
      have hlater := (h' there content' htarget').2.trans htarget
      rw [place_of_target_ok htarget', place_of_target_ok (hkept.trans htarget'),
        place_of_target_ok hlater]
      have hnode := (target_eq_ok_iff.mp htarget).2.2
      have hnode' := (target_eq_ok_iff.mp htarget').2.2
      have hne : there ≠ here := by
        rintro rfl
        exact hapart htarget'
      exact ⟨rfl, node?_put_comm hne (not_isFixed hnode) (not_isFixed hnode')⟩

/-- Files may be saved in either order where neither path affects the other once the directory is
there. -/
theorem save_comm (h : (tree.createDirs dir).2.Unaffected path other)
    (h' : (tree.createDirs dir).2.Unaffected other path) (content content' : String) :
    Agree ((tree.save dir path content).2.save dir other content').1
      (tree.save dir other content').1 ∧
    ∀ loc, ((tree.save dir path content).2.save dir other content').2.node? loc =
      ((tree.save dir other content').2.save dir path content).2.node? loc := by
  rcases hdirs : tree.createDirs dir with ⟨e | u, created⟩
  · obtain ⟨hfirst, e₁, hagain⟩ := save_of_error hdirs path content
    obtain ⟨hfirst', e₂, hagain'⟩ := save_of_error hdirs other content'
    rw [hfirst, hfirst', hagain, hagain']
    exact ⟨.createDir dir e₂ e, fun _ => rfl⟩
  · rw [hdirs] at h h'
    obtain ⟨hfirst, hhas⟩ := save_of_ok hdirs path content
    obtain ⟨hfirst', hhas'⟩ := save_of_ok hdirs other content'
    obtain ⟨houtcome, hnodes⟩ := place_comm h h' content content'
    rw [hfirst, hfirst', save_of_hasDir hhas, save_of_hasDir hhas', houtcome]
    exact ⟨.same _, hnodes⟩

/-- Saving a file changes what another path leads to only by creating the directory, unless both
paths lead to one location then. -/
theorem stat_save (h : ∀ loc, (tree.createDirs dir).2.resolve path = .ok loc →
      (tree.createDirs dir).2.resolve other ≠ .ok loc) (content : String) :
    ((tree.save dir path content).2.stat other).toOption =
      ((tree.createDirs dir).2.stat other).toOption := by
  rcases hdirs : tree.createDirs dir with ⟨e | u, created⟩
  · rw [(save_of_error hdirs path content).1]
  · rw [hdirs] at h
    rw [(save_of_ok hdirs path content).1]
    cases htarget : created.target path with
    | error e => rw [place_of_target_error htarget]
    | ok loc =>
      rw [place_of_target_ok htarget]
      exact stat_put_of_resolve_ne (target_eq_ok_iff.mp htarget).2.2
        (h loc (resolve_of_target htarget)) content

end Save

end FileTree

end PropExport
