import Mathlib.Data.List.TakeWhile
import PropExport.Proofs.Files.Names

/-!
# Creating directories

A directory that was created is there, and creating it again changes nothing. Where a directory
could not be created, a second attempt fails too, and what the first one created on the way is all
there will be.
-/

namespace PropExport

namespace Path

variable {path : String}

/-- The named part of a path is followed by empty parts only. -/
theorem parts_eq_of_split {others : List String} {last : String} {slash : Bool}
    (h : split path = (others, last, slash)) (hlast : last ≠ "") :
    ∃ k, parts path = others ++ last :: List.replicate k "" := by
  unfold split at h
  cases hdrop : (parts path).reverse.dropWhile (· == "") with
  | nil =>
    simp only [hdrop, Prod.mk.injEq] at h
    exact absurd h.2.1.symm hlast
  | cons first rest =>
    simp only [hdrop, Prod.mk.injEq] at h
    obtain ⟨rfl, rfl, _⟩ := h
    let empty := (parts path).reverse.takeWhile (· == "")
    have hempty : empty.reverse = List.replicate empty.length "" := by
      refine List.eq_replicate_iff.mpr ⟨by simp, fun part hpart => ?_⟩
      simpa using List.mem_takeWhile_imp (List.mem_reverse.mp hpart)
    refine ⟨empty.length, ?_⟩
    calc parts path = (empty ++ first :: rest).reverse := by
          rw [← hdrop, List.takeWhile_append_dropWhile, List.reverse_reverse]
      _ = rest.reverse ++ first :: List.replicate empty.length "" := by
          rw [List.reverse_append, List.reverse_cons, List.append_assoc, hempty]
          rfl

/-- A path without a named part has no part before it. -/
theorem eq_nil_of_split {others : List String} {slash : Bool}
    (h : split path = (others, "", slash)) : others = [] := by
  unfold split at h
  cases hdrop : (parts path).reverse.dropWhile (· == "") with
  | nil =>
    simp only [hdrop, Prod.mk.injEq] at h
    exact h.1.symm
  | cons first rest =>
    simp only [hdrop, Prod.mk.injEq] at h
    have hhead := List.head?_dropWhile_not (· == "") (parts path).reverse
    rw [hdrop, h.2.1] at hhead
    simp at hhead

/-- A character that is no slash stands in a part that is not empty. -/
theorem exists_part_ne_empty {cs current : List Char} (h : current ≠ [] ∨ ∃ c ∈ cs, c ≠ '/') :
    ∃ part ∈ splitSlashes current cs, part ≠ "" := by
  fun_induction splitSlashes current cs with
  | case1 current =>
    refine ⟨String.ofList current.reverse, by simp, ?_⟩
    simpa using h
  | case2 current cs ih =>
    rcases h with h | ⟨c, hc, hne⟩
    · exact ⟨String.ofList current.reverse, by simp, by simpa using h⟩
    · have hmem : c ∈ cs := (List.mem_cons.mp hc).resolve_left hne
      obtain ⟨part, hpart, hempty⟩ := ih (.inr ⟨c, hmem, hne⟩)
      exact ⟨part, List.mem_cons_of_mem _ hpart, hempty⟩
  | case3 current c cs hc ih => exact ih (.inl (List.cons_ne_nil c current))

/-- What is dropped from the end of a path is set off by a slash. -/
theorem exists_dropTrivial (cs : List Char) (h : dropTrivial cs ≠ []) :
    ∃ dropped, cs = dropped ++ dropTrivial cs ∧ (dropped = [] ∨ dropped.getLast? = some '/') := by
  fun_induction dropTrivial cs with
  | case1 cs ih =>
    obtain ⟨dropped, hcs, hlast⟩ := ih h
    refine ⟨'/' :: dropped, by rw [List.cons_append, ← hcs], .inr ?_⟩
    rcases hlast with rfl | hlast
    · rfl
    · simp [List.getLast?_cons, hlast]
  | case2 => exact absurd rfl h
  | case3 cs ih =>
    obtain ⟨dropped, hcs, hlast⟩ := ih h
    refine ⟨'.' :: '/' :: dropped, by rw [List.cons_append, List.cons_append, ← hcs], .inr ?_⟩
    rcases hlast with rfl | hlast
    · rfl
    · simp [List.getLast?_cons, hlast]
  | case4 => exact ⟨[], rfl, .inl rfl⟩

private theorem head_dropTrivial_ne {cs rest : List Char} {c : Char}
    (h : dropTrivial cs = c :: rest) : c ≠ '/' := by
  fun_induction dropTrivial cs with
  | case1 cs ih => exact ih h
  | case2 => cases h
  | case3 cs ih => exact ih h
  | case4 cs hslash _ _ =>
    rintro rfl
    exact hslash rest h

/-- The last part of a path follows a slash. -/
theorem exists_dropPart (cs : List Char) (h : dropPart cs ≠ []) :
    ∃ part, cs = part ++ '/' :: dropPart cs := by
  refine ⟨cs.takeWhile (· != '/'), ?_⟩
  cases hdrop : cs.dropWhile (· != '/') with
  | nil => simp [dropPart, hdrop] at h
  | cons c rest =>
    obtain rfl : c = '/' := by
      have hhead := List.head?_dropWhile_not (· != '/') cs
      rw [hdrop] at hhead
      simpa using hhead
    rw [dropPart, hdrop, List.drop_one, List.tail_cons, ← hdrop, List.takeWhile_append_dropWhile]

/-- What cannot be shortened is nothing, the root, or a leading dot with a slash after it. -/
theorem take_anchor_cases (cs : List Char) :
    cs.take (anchor cs) = [] ∨ cs.take (anchor cs) = ['/'] ∨
      cs.take (anchor cs) = ['.'] ∧
        (cs.drop (anchor cs) = [] ∨ ∃ rest, cs.drop (anchor cs) = '/' :: rest) := by
  unfold anchor
  split <;> simp

/-- The parent of a path is nothing, the root, or what stands before a slash that is followed by
more than slashes. -/
theorem parent?_eq_some {dir : String} (h : parent? path = some dir) :
    dir = "" ∨ dir = "/" ∨
      ∃ rest, path.toList = dir.toList ++ '/' :: rest ∧ ∃ c ∈ rest, c ≠ '/' := by
  have hpath := List.take_append_drop (anchor path.toList) path.toList
  have hfixed := take_anchor_cases path.toList
  unfold parent? at h
  dsimp only at h
  generalize path.toList.take (anchor path.toList) = fixed at h hpath hfixed
  generalize path.toList.drop (anchor path.toList) = tail at h hpath hfixed
  cases hbody : dropTrivial tail.reverse with
  | nil =>
    rw [hbody] at h
    dsimp only at h
    split at h
    · exact .inl (Option.some.inj h).symm
    · cases h
  | cons c body =>
    rw [hbody] at h
    have hc : c ≠ '/' := head_dropTrivial_ne hbody
    obtain ⟨dropped, htail, _⟩ := exists_dropTrivial tail.reverse (by simp [hbody])
    rw [hbody] at htail
    have hmem : c ∈ tail := by
      rw [← List.mem_reverse, htail]
      simp
    obtain rfl : String.ofList (fixed ++ (dropTrivial (dropPart (c :: body))).reverse) = dir :=
      Option.some.inj h
    by_cases hkept : dropTrivial (dropPart (c :: body)) = []
    · -- the path has one part behind what cannot be shortened
      rw [hkept, List.reverse_nil, List.append_nil]
      rcases hfixed with rfl | rfl | ⟨rfl, rfl | ⟨rest, rfl⟩⟩
      · exact .inl rfl
      · exact .inr (.inl rfl)
      · cases hmem
      · refine .inr (.inr ⟨rest, by simpa using hpath.symm, c, ?_, hc⟩)
        exact (List.mem_cons.mp hmem).resolve_left hc
    · have hpart : dropPart (c :: body) ≠ [] := by
        intro hnil
        rw [hnil] at hkept
        exact hkept rfl
      obtain ⟨part, hsplit⟩ := exists_dropPart (c :: body) hpart
      obtain ⟨between, hbetween, hslash⟩ := exists_dropTrivial (dropPart (c :: body)) hkept
      have hcpart : c ∈ part := by
        cases part with
        | nil => exact absurd (List.cons.inj hsplit).1 hc
        | cons d part => simp [(List.cons.inj hsplit).1]
      generalize dropPart (c :: body) = rest at hsplit hbetween ⊢
      generalize dropTrivial rest = kept at hbetween ⊢
      have hwhole : path.toList = fixed ++ kept.reverse ++
          (between.reverse ++ '/' :: (part.reverse ++ dropped.reverse)) := by
        rw [← hpath, ← List.reverse_reverse tail, htail, hsplit, hbetween]
        simp
      refine .inr (.inr ?_)
      rw [hwhole, String.toList_ofList]
      rcases hslash with rfl | hslash
      · exact ⟨part.reverse ++ dropped.reverse, by simp, c, by simp [hcpart], hc⟩
      · obtain ⟨before, rfl⟩ := List.getLast?_eq_some_iff.mp hslash
        exact ⟨before.reverse ++ '/' :: (part.reverse ++ dropped.reverse), by simp, c,
          by simp [hcpart], hc⟩

end Path

namespace FileTree

variable {tree tree' : FileTree} {loc : Location} {path : String}

private theorem isDir_iff :
    tree.isDir path = true ↔
      ∃ loc, tree.resolve path = .ok loc ∧ tree.node? loc = some .directory := by
  unfold isDir stat
  cases hresolve : tree.resolve path with
  | error e => simp [bind, Except.bind]
  | ok loc =>
    cases hnode : tree.node? loc with
    | none => simp [bind, Except.bind, hnode, throw, throwThe, MonadExceptOf.throw]
    | some node => cases node <;> simp [bind, Except.bind, hnode, pure, Except.pure]

/-- A directory is there. The empty path stands for the starting directory. -/
def HasDir (tree : FileTree) (path : String) : Prop :=
  path = "" ∨ tree.isDir path = true

/-- A directory is there as long as directories stay directories. -/
theorem KeepsDirs.hasDir (h : tree.KeepsDirs tree') (hdir : tree.HasDir path) :
    tree'.HasDir path := by
  refine hdir.imp_right fun hdir => ?_
  obtain ⟨loc, hpath, hnode⟩ := isDir_iff.mp hdir
  exact isDir_iff.mpr ⟨loc, h.resolve hpath, h loc hnode⟩

/-- The last part of a path names the same location. -/
theorem KeepsDirs.resolveName (h : tree.KeepsDirs tree') {named : Option Location}
    (hname : tree.resolveName path = .ok named) : tree'.resolveName path = .ok named := by
  unfold FileTree.resolveName at hname ⊢
  obtain ⟨start, hstart, hrest⟩ := exists_of_bind_eq_ok hname
  obtain ⟨dir, hdir, hrest⟩ := exists_of_bind_eq_ok hrest
  obtain ⟨next, hstep, hnamed⟩ := exists_of_bind_eq_ok hrest
  exact bind_eq_ok hstart (bind_eq_ok (h.foldlM hdir) (bind_eq_ok (h.step hstep) hnamed))

/-- The last part of a path that can be followed can be named. -/
theorem exists_resolveName_of_resolve (h : tree.resolve path = .ok loc) :
    ∃ named, tree.resolveName path = .ok named := by
  obtain ⟨start, hstart, hfold⟩ := exists_of_bind_eq_ok h
  rcases hsplit : Path.split path with ⟨others, last, slash⟩
  unfold FileTree.resolveName
  rw [hsplit]
  by_cases hlast : last = ""
  · subst hlast
    obtain rfl := Path.eq_nil_of_split hsplit
    have hfixed : tree.node? start = some .directory := by
      rw [startOf_eq_ok hstart]
      split
      · exact node?_of_isFixed (.inl rfl)
      · exact node?_of_isFixed (.inr rfl)
    have hstep : tree.step start "" = .ok start := step_eq_ok_iff.mpr ⟨hfixed, by simp⟩
    exact ⟨_, bind_eq_ok hstart (bind_eq_ok rfl (bind_eq_ok hstep rfl))⟩
  · obtain ⟨k, hparts⟩ := Path.parts_eq_of_split hsplit hlast
    rw [hparts, List.foldlM_append] at hfold
    obtain ⟨dir, hdir, hrest⟩ := exists_of_bind_eq_ok hfold
    rw [List.foldlM_cons] at hrest
    obtain ⟨next, hstep, _⟩ := exists_of_bind_eq_ok hrest
    exact ⟨_, bind_eq_ok hstart (bind_eq_ok hdir (bind_eq_ok hstep rfl))⟩

/-- A name is reached by following all parts of a path but for empty ones at the end. -/
theorem resolveName_eq_some (h : tree.resolveName path = .ok (some loc)) :
    ∃ named k start, Path.parts path = named ++ List.replicate k "" ∧
      startOf path = .ok start ∧ named.foldlM tree.step start = .ok loc := by
  rcases hsplit : Path.split path with ⟨others, last, slash⟩
  unfold resolveName at h
  rw [hsplit] at h
  obtain ⟨start, hstart, hrest⟩ := exists_of_bind_eq_ok h
  obtain ⟨dir, hdir, hrest⟩ := exists_of_bind_eq_ok hrest
  obtain ⟨next, hstep, hnamed⟩ := exists_of_bind_eq_ok hrest
  have hnamed := Except.ok.inj hnamed
  split at hnamed
  · cases hnamed
  · next hlast =>
    cases hnamed
    obtain ⟨k, hparts⟩ := Path.parts_eq_of_split hsplit fun hempty => hlast (.inl hempty)
    refine ⟨others ++ [last], k, start, by simpa using hparts, hstart, ?_⟩
    rw [List.foldlM_append]
    exact bind_eq_ok hdir (bind_eq_ok hstep rfl)

/-- Empty parts lead nowhere else. -/
theorem eq_of_foldlM_replicate {k : Nat} {next : Location}
    (h : (List.replicate k "").foldlM tree.step loc = .ok next) : next = loc := by
  refine foldlM_invariant (· = loc) rfl ?_ h
  intro before after part hpart hbefore hstep
  have hafter := (step_eq_ok_iff.mp hstep).2
  rw [if_pos (.inl (List.eq_of_mem_replicate hpart))] at hafter
  exact hafter.trans hbefore

private theorem foldlM_replicate_of_dir (h : tree.node? loc = some .directory) (k : Nat) :
    (List.replicate k "").foldlM tree.step loc = .ok loc := by
  induction k with
  | zero => rfl
  | succ k ih =>
    have hstep : tree.step loc "" = .ok loc := step_eq_ok_iff.mpr ⟨h, by simp⟩
    rw [List.replicate_succ, List.foldlM_cons]
    exact bind_eq_ok hstep ih

/-- A path leads to what its last part names, if it leads anywhere. -/
theorem eq_of_resolve_of_resolveName {next : Location}
    (hname : tree.resolveName path = .ok (some loc)) (h : tree.resolve path = .ok next) :
    next = loc := by
  obtain ⟨named, k, start, hparts, hstart, hfold⟩ := resolveName_eq_some hname
  obtain ⟨start', hstart', hrest⟩ := exists_of_bind_eq_ok h
  obtain rfl : start = start' := Except.ok.inj (hstart.symm.trans hstart')
  rw [hparts, List.foldlM_append] at hrest
  obtain ⟨mid, hmid, hempty⟩ := exists_of_bind_eq_ok hrest
  obtain rfl : loc = mid := Except.ok.inj (hfold.symm.trans hmid)
  exact eq_of_foldlM_replicate hempty

/-- Writing a file leaves a path alone that leads somewhere else. -/
theorem unaffected_of_resolve {other : String} {there : Location} (h : tree.resolve path = .ok loc)
    (hother : tree.resolve other = .ok there) (hne : there ≠ loc) :
    tree.Unaffected path other := by
  intro here content htarget
  obtain rfl : loc = here := Except.ok.inj (h.symm.trans (resolve_of_target htarget))
  obtain ⟨named, hnamed⟩ := exists_resolveName_of_resolve hother
  have hnode := (target_eq_ok_iff.mp htarget).2.2
  refine ⟨fun htarget' => ?_, target_put_of_resolveName ?_ fun hsome => ?_⟩
  · exact hne (Except.ok.inj (hother.symm.trans (resolve_of_target htarget')))
  · rw [hnamed]
    exact (keepsDirs_put hnode (.file content)).resolveName hnamed
  · exact hne (eq_of_resolve_of_resolveName hsome hother)

private theorem resolve_of_resolveName_dir (hname : tree.resolveName path = .ok (some loc))
    (hdir : tree.node? loc = some .directory) : tree.resolve path = .ok loc := by
  obtain ⟨named, k, start, hparts, hstart, hfold⟩ := resolveName_eq_some hname
  refine bind_eq_ok hstart ?_
  rw [hparts, List.foldlM_append]
  exact bind_eq_ok hfold (foldlM_replicate_of_dir hdir k)

/-- A directory that is there is not created. -/
theorem ensureDir_of_isDir (h : tree.isDir path = true) : tree.ensureDir path = .ok tree := by
  unfold ensureDir
  cases hcreate : tree.createDir path with
  | error e => simp [h]
  | ok created =>
    obtain ⟨loc, hname, hnone, _⟩ := createDir_eq_ok hcreate
    obtain ⟨next, hresolve, hnode⟩ := isDir_iff.mp h
    rw [eq_of_resolve_of_resolveName hname hresolve, hnone] at hnode
    cases hnode

private theorem isDir_of_ensureDir (h : tree.ensureDir path = .ok tree') :
    tree'.isDir path = true := by
  unfold ensureDir at h
  cases hcreate : tree.createDir path with
  | error e =>
    simp only [hcreate] at h
    split at h
    · next hdir =>
      cases h
      exact hdir
    · cases h
  | ok created =>
    obtain rfl : created = tree' := by simpa [hcreate] using h
    obtain ⟨loc, hname, hnone, rfl⟩ := createDir_eq_ok hcreate
    have hfree : tree.node? loc ≠ some .directory := by simp [hnone]
    have hnode : (tree.put loc .directory).node? loc = some .directory :=
      node?_put_self (not_isFixed hfree)
    have hname' := (keeps_put hnone .directory).dirs.resolveName hname
    exact isDir_iff.mpr ⟨loc, resolve_of_resolveName_dir hname' hnode, hnode⟩

/-- The root is always there. -/
theorem isDir_root (tree : FileTree) : tree.isDir "/" = true := by
  have hroot : tree.node? ["/"] = some .directory := node?_of_isFixed (.inl rfl)
  refine isDir_iff.mpr ⟨["/"], ?_, hroot⟩
  exact foldlM_replicate_of_dir hroot 2

/-- A directory that a path leads through is there. -/
theorem isDir_of_foldlM {dir : String} {further : List String} {start : Location}
    (hstart : startOf dir = .ok start) (hfurther : further ≠ [])
    (h : (Path.parts dir ++ further).foldlM tree.step start = .ok loc) : tree.isDir dir = true := by
  rw [List.foldlM_append] at h
  obtain ⟨mid, hmid, hrest⟩ := exists_of_bind_eq_ok h
  cases further with
  | nil => exact absurd rfl hfurther
  | cons part further =>
    rw [List.foldlM_cons] at hrest
    obtain ⟨_, hstep, _⟩ := exists_of_bind_eq_ok hrest
    exact isDir_iff.mpr ⟨mid, bind_eq_ok hstart hmid, (step_eq_ok_iff.mp hstep).1⟩

/-- A path starts where the part of it before a slash starts. -/
theorem startOf_of_append {dir : String} {start : Location} {rest : List Char}
    (h : startOf path = .ok start) (hpath : path.toList = dir.toList ++ '/' :: rest)
    (hdir : dir ≠ "") : startOf dir = .ok start := by
  have hjoined : path = dir ++ String.ofList ('/' :: rest) := by
    apply String.toList_inj.mp
    rw [hpath, String.toList_append, String.toList_ofList]
  have hsize : dir.utf8ByteSize ≤ path.utf8ByteSize := by
    rw [hjoined, String.utf8ByteSize_append]
    omega
  have habsolute : Path.isAbsolute path = Path.isAbsolute dir := by
    rw [Path.isAbsolute, Path.isAbsolute, hpath]
    cases hcs : dir.toList with
    | nil => exact absurd (by simpa using hcs) hdir
    | cons c cs => rfl
  unfold startOf at h ⊢
  rw [if_neg hdir]
  split at h
  · cases h
  split at h
  · cases h
  next hnul =>
  split at h
  · cases h
  next hlong =>
  rw [if_neg (by simpa [hpath] using fun hmem => hnul (by simp [hpath, hmem])), if_neg (by omega),
    ← habsolute]
  exact h

/-- What a directory stands in is there where it can be created. -/
theorem hasDir_parent_of_ensureDir (h : tree.ensureDir path = .ok tree') :
    tree.HasDir ((Path.parent? path).getD "") := by
  cases hparent : Path.parent? path with
  | none => exact .inl rfl
  | some dir =>
    rcases Path.parent?_eq_some hparent with rfl | rfl | ⟨rest, hpath, c, hc, hslash⟩
    · exact .inl rfl
    · exact .inr (isDir_root tree)
    by_cases hempty : dir = ""
    · exact .inl hempty
    refine .inr ?_
    have hparts : Path.parts path = Path.parts dir ++ Path.splitSlashes [] rest := by
      rw [Path.parts, hpath, Path.splitSlashes_append]
      rfl
    obtain ⟨part, hpart, hne⟩ : ∃ part ∈ Path.splitSlashes [] rest, part ≠ "" :=
      Path.exists_part_ne_empty (.inr ⟨c, hc, hslash⟩)
    by_cases hdir : tree.isDir path = true
    · obtain ⟨loc, hresolve, _⟩ := isDir_iff.mp hdir
      obtain ⟨start, hstart, hfold⟩ := exists_of_bind_eq_ok hresolve
      rw [hparts] at hfold
      exact isDir_of_foldlM (startOf_of_append hstart hpath hempty) (List.ne_nil_of_mem hpart) hfold
    · obtain ⟨created, hcreate⟩ : ∃ created, tree.createDir path = .ok created := by
        unfold ensureDir at h
        cases hcreate : tree.createDir path with
        | ok created => exact ⟨created, rfl⟩
        | error e => simp [hcreate, hdir] at h
      obtain ⟨loc, hname, _⟩ := createDir_eq_ok hcreate
      obtain ⟨named, k, start, hnamed, hstart, hfold⟩ := resolveName_eq_some hname
      -- the parts up to the name go beyond those of the parent
      rw [hparts] at hnamed
      rcases List.append_eq_append_iff.mp hnamed with ⟨further, rfl, hfurther⟩
        | ⟨between, _, hbetween⟩
      · refine isDir_of_foldlM (startOf_of_append hstart hpath hempty) ?_ hfold
        rintro rfl
        rw [hfurther] at hpart
        exact hne (List.eq_of_mem_replicate (by simpa using hpart))
      · refine absurd (List.eq_of_mem_replicate (n := k) ?_) hne
        rw [hbetween]
        simp [hpart]

/-- A directory that is there is not created again. -/
theorem ensureDirs_of_hasDir (n : Nat) (h : tree.HasDir path) :
    ensureDirs n tree path = (.ok (), tree) := by
  cases n with
  | zero => rfl
  | succ n =>
    rw [ensureDirs]
    rcases h with h | h
    · rw [if_pos h]
    · rw [ensureDir_of_isDir h]
      split <;> rfl

private theorem hasDir_of_ensureDirs {n : Nat}
    (h : ensureDirs (n + 1) tree path = (.ok (), tree')) : tree'.HasDir path := by
  rw [ensureDirs] at h
  split at h
  · next hempty => exact .inl hempty
  · split at h
    · next hensure =>
      cases h
      exact .inr (isDir_of_ensureDir hensure)
    · split at h
      · cases h
      · split at h
        · next hensure =>
          cases h
          exact .inr (isDir_of_ensureDir hensure)
        · cases h
    · cases h

/-- A directory that cannot be created leaves nothing behind where what it stands in is not created
either. -/
theorem ensureDirs_of_error {n : Nat} {e : FileError} (hempty : path ≠ "")
    (h : tree.ensureDir path = .error e)
    (hparent : (ensureDirs n tree ((Path.parent? path).getD "")).2 = tree) :
    ∃ e', ensureDirs (n + 1) tree path = (.error e', tree) := by
  rw [ensureDirs, if_neg hempty, h]
  by_cases hmissing : e = .notFound
  · subst hmissing
    rcases hresult : ensureDirs n tree ((Path.parent? path).getD "") with ⟨e' | u, mid⟩
    · rw [hresult] at hparent
      exact ⟨e', by rw [← hparent]⟩
    · rw [hresult] at hparent
      obtain rfl : mid = tree := hparent
      exact ⟨.notFound, by simp only [h]⟩
  · refine ⟨e, ?_⟩
    split
    · next heq => cases heq
    · next heq => exact absurd (Except.error.inj heq) hmissing
    · next heq => rw [Except.error.inj heq]

/-- Where a directory cannot be created, a second attempt fails too and changes nothing. -/
theorem ensureDirs_again {n : Nat} {e : FileError}
    (h : ensureDirs n tree path = (.error e, tree')) :
    ∃ e', ensureDirs n tree' path = (.error e', tree') := by
  induction n generalizing path e with
  | zero => cases h
  | succ n ih =>
    have hfirst := h
    rw [ensureDirs] at h
    by_cases hempty : path = ""
    · rw [if_pos hempty] at h
      cases h
    rw [if_neg hempty] at h
    split at h
    · cases h
    · split at h
      · -- what the directory stands in cannot be created, so it is not there next time either
        next hparent =>
        cases h
        obtain ⟨e', hagain⟩ := ih hparent
        cases hensure : tree'.ensureDir path with
        | ok created =>
          rw [ensureDirs_of_hasDir n (hasDir_parent_of_ensureDir hensure)] at hagain
          cases hagain
        | error e => exact ensureDirs_of_error hempty hensure (by rw [hagain])
      · next mid hparent =>
        split at h
        · cases h
        · next hensure =>
          cases h
          refine ensureDirs_of_error hempty hensure ?_
          cases n with
          | zero => rfl
          | succ n => rw [ensureDirs_of_hasDir _ (hasDir_of_ensureDirs hparent)]
    · cases h
      exact ⟨e, hfirst⟩

/-- Creating a directory that is there changes nothing. -/
theorem createDirs_of_hasDir (h : tree.HasDir path) : tree.createDirs path = (.ok (), tree) :=
  ensureDirs_of_hasDir _ h

/-- A directory that was created is there. -/
theorem hasDir_of_createDirs (h : tree.createDirs path = (.ok (), tree')) : tree'.HasDir path :=
  hasDir_of_ensureDirs h

/-- A directory that could not be created cannot be created later, and no more of it is created. -/
theorem createDirs_again {e : FileError} (h : tree.createDirs path = (.error e, tree')) :
    ∃ e', tree'.createDirs path = (.error e', tree') :=
  ensureDirs_again h

end FileTree

end PropExport
