import PropExport.Proofs.Files.Tree

/-!
# Names in a directory

Names without a slash that are joined to one directory lead to different locations. A name with a
slash in it need not: it may lead out of the directory that it seems to stand in. So writing a file
under one such name changes nothing about the others.
-/

namespace PropExport

namespace Path

/-- A name for a file in a directory. -/
structure IsName (name : String) : Prop where
  ne_empty : name ≠ ""
  ne_dot : name ≠ "."
  no_slash : '/' ∉ name.toList

private theorem IsName.not_isAbsolute {name : String} (h : IsName name) :
    isAbsolute name = false := by
  cases hname : name.toList with
  | nil => simp [isAbsolute, hname]
  | cons c cs =>
    have hc : c ≠ '/' := by
      rintro rfl
      exact h.no_slash (by simp [hname])
    simp [isAbsolute, hname, hc]

/-- A slash ends one part and starts the next. -/
theorem splitSlashes_append (current cs rest : List Char) :
    splitSlashes current (cs ++ '/' :: rest) = splitSlashes current cs ++ splitSlashes [] rest := by
  induction cs generalizing current with
  | nil => simp [splitSlashes]
  | cons c cs ih =>
    by_cases hc : c = '/'
    · subst hc
      simp [splitSlashes, ih]
    · rw [List.cons_append, splitSlashes, splitSlashes, ih] <;> simp_all

/-- Without a slash there is one part. -/
theorem splitSlashes_of_not_mem {cs : List Char} (h : '/' ∉ cs) (current : List Char) :
    splitSlashes current cs = [String.ofList (current.reverse ++ cs)] := by
  induction cs generalizing current with
  | nil => simp [splitSlashes]
  | cons c cs ih =>
    obtain ⟨hc, hcs⟩ : '/' ≠ c ∧ '/' ∉ cs := by simpa using h
    rw [splitSlashes, ih hcs]
    · simp
    · exact Ne.symm hc

private theorem parts_of_isName {name : String} (h : IsName name) : parts name = [name] := by
  rw [parts, splitSlashes_of_not_mem h.no_slash]
  simp

/-- A name with another one behind a slash has two parts. -/
theorem parts_of_isName_pair {stem name : String} (hstem : IsName stem) (hname : IsName name) :
    parts (stem ++ "/" ++ name) = [stem, name] ∧ isAbsolute (stem ++ "/" ++ name) = false := by
  have hchars : (stem ++ "/" ++ name).toList = stem.toList ++ '/' :: name.toList := by simp
  constructor
  · rw [parts, hchars, splitSlashes_append]
    exact congrArg₂ (· ++ ·) (parts_of_isName hstem) (parts_of_isName hname)
  · have hrelative := hstem.not_isAbsolute
    rw [isAbsolute] at hrelative ⊢
    rw [hchars]
    cases hhead : stem.toList with
    | nil => exact absurd (by simpa using hhead) hstem.ne_empty
    | cons c cs => simpa [hhead] using hrelative

/-- The parts of a text that is joined to a directory come after those of the directory. -/
theorem exists_parts_join_append (dir : String) :
    ∃ others, ∀ text, isAbsolute text = false →
      parts (join dir text) = others ++ parts text ∧
      isAbsolute (join dir text) = isAbsolute dir := by
  by_cases hempty : dir = ""
  · refine ⟨[], fun text htext => ?_⟩
    have hjoin : join dir text = text := by simp [join, htext, hempty]
    rw [hjoin, htext, hempty]
    exact ⟨rfl, rfl⟩
  have hhead (rest : List Char) : (dir.toList ++ rest).head? = dir.toList.head? := by
    cases hdir : dir.toList with
    | nil => exact absurd (by simpa using hdir) hempty
    | cons c cs => rfl
  by_cases hslash : dir.toList.getLast? = some '/'
  · obtain ⟨cs, hcs⟩ : ∃ cs, dir.toList = cs ++ ['/'] := List.getLast?_eq_some_iff.mp hslash
    refine ⟨splitSlashes [] cs, fun text htext => ?_⟩
    have hjoin : join dir text = dir ++ text := by simp [join, htext, hslash]
    constructor
    · rw [hjoin, parts, String.toList_append, hcs, List.append_assoc, List.singleton_append,
        splitSlashes_append, parts]
    · rw [hjoin, isAbsolute, String.toList_append, hhead, isAbsolute]
  · refine ⟨splitSlashes [] dir.toList, fun text htext => ?_⟩
    have hjoin : join dir text = dir ++ "/" ++ text := by simp [join, htext, hempty, hslash]
    have hchars : (dir ++ "/" ++ text).toList = dir.toList ++ '/' :: text.toList := by simp
    constructor
    · rw [hjoin, parts, hchars, splitSlashes_append, parts]
    · rw [hjoin, isAbsolute, hchars, hhead, isAbsolute]

/-- A name that is joined to a directory is the last part after those of the directory. -/
theorem exists_parts_join (dir : String) :
    ∃ others, ∀ name, IsName name →
      parts (join dir name) = others ++ [name] ∧ isAbsolute (join dir name) = isAbsolute dir := by
  obtain ⟨others, hothers⟩ := exists_parts_join_append dir
  refine ⟨others, fun name hname => ?_⟩
  rw [← parts_of_isName hname]
  exact hothers name hname.not_isAbsolute

/-- A path that ends in a name is split before it. -/
theorem split_of_parts {path name : String} {others : List String}
    (h : parts path = others ++ [name]) (hname : name ≠ "") :
    split path = (others, name, false) := by
  have hrev : (parts path).reverse = name :: others.reverse := by simp [h]
  have hdrop : (name :: others.reverse).dropWhile (· == "") = name :: others.reverse := by
    rw [List.dropWhile_cons_of_neg (by simpa using hname)]
  simp [split, hrev, hdrop, hname]

end Path

namespace FileTree

variable {tree tree' : FileTree} {loc : Location}

/-- A path is followed from the root or from the starting directory. -/
theorem startOf_eq_ok {path : String} {start : Location} (h : startOf path = .ok start) :
    start = if Path.isAbsolute path then ["/"] else [] := by
  unfold startOf at h
  split at h
  · cases h
  split at h
  · cases h
  split at h
  · cases h
  split at h
  · next habsolute => cases h; rw [if_pos habsolute]
  · next habsolute => cases h; rw [if_neg habsolute]

/-- No name but `..` leads from a location to the directory that holds it. -/
private theorem parent_ne_append {name : String} (h : name ≠ "..") :
    loc.parent ≠ loc ++ [name] := by
  intro heq
  have hlength := congrArg List.length heq
  rw [List.length_append, List.length_singleton] at hlength
  unfold Location.parent at heq hlength
  by_cases hroot : loc = ["/"]
  · rw [if_pos hroot] at hlength
    omega
  rw [if_neg hroot] at heq hlength
  by_cases houtward : Location.isOutward loc = true
  · rw [if_pos houtward] at heq
    exact h (List.cons.inj (List.append_cancel_left heq)).1.symm
  · rw [if_neg houtward, List.length_dropLast] at hlength
    omega

/-- Different names lead from one directory to different locations. -/
theorem step_injective {name other : String} {next : Location} (hname : Path.IsName name)
    (hother : Path.IsName other) (h : tree.step loc name = .ok next)
    (h' : tree.step loc other = .ok next) : name = other := by
  have hnext := (step_eq_ok_iff.mp h).2
  have hnext' := (step_eq_ok_iff.mp h').2
  rw [if_neg (by simp [hname.ne_empty, hname.ne_dot])] at hnext
  rw [if_neg (by simp [hother.ne_empty, hother.ne_dot])] at hnext'
  by_cases hup : name = ".." <;> by_cases hup' : other = ".."
  · rw [hup, hup']
  · rw [if_pos hup] at hnext
    rw [if_neg hup'] at hnext'
    exact absurd (hnext.symm.trans hnext'.2) (parent_ne_append hup')
  · rw [if_neg hup] at hnext
    rw [if_pos hup'] at hnext'
    exact absurd (hnext'.symm.trans hnext.2) (parent_ne_append hup)
  · rw [if_neg hup] at hnext
    rw [if_neg hup'] at hnext'
    exact (List.cons.inj (List.append_cancel_left (hnext.2.symm.trans hnext'.2))).1

/-- A path that ends in a name leads through the directory that holds it. -/
theorem resolve_of_parts {path name : String} {others : List String}
    (h : tree.resolve path = .ok loc) (hparts : Path.parts path = others ++ [name]) :
    ∃ dir, others.foldlM tree.step (if Path.isAbsolute path then ["/"] else []) = .ok dir ∧
      tree.step dir name = .ok loc := by
  unfold resolve at h
  obtain ⟨start, hstart, hfold⟩ := exists_of_bind_eq_ok h
  rw [hparts, List.foldlM_append] at hfold
  obtain ⟨dir, hdir, hlast⟩ := exists_of_bind_eq_ok hfold
  rw [List.foldlM_cons] at hlast
  obtain ⟨next, hstep, hnext⟩ := exists_of_bind_eq_ok hlast
  cases hnext
  rw [← startOf_eq_ok hstart]
  exact ⟨dir, hdir, hstep⟩

/-- Writing a file under one path does not change where another one is written, and that is
somewhere else. -/
def Unaffected (tree : FileTree) (path other : String) : Prop :=
  ∀ loc content, tree.target path = .ok loc →
    tree.target other ≠ .ok loc ∧ (tree.put loc (.file content)).target other = tree.target other

/-- What is written at a path is at the location that the path leads to. -/
theorem resolve_of_target {path : String} (h : tree.target path = .ok loc) :
    tree.resolve path = .ok loc := by
  obtain ⟨hnamed, hslash, _⟩ := target_eq_ok_iff.mp h
  exact resolve_of_resolveName hnamed hslash

/-- Where a file is written depends on what the path names and on whether there is a directory. -/
theorem target_put_of_resolveName {other content : String}
    (hnamed : (tree.put loc (.file content)).resolveName other = tree.resolveName other)
    (hne : tree.resolveName other ≠ .ok (some loc)) :
    (tree.put loc (.file content)).target other = tree.target other := by
  unfold target
  rw [hnamed]
  rcases hother : tree.resolveName other with e | _ | loc'
  · rfl
  · rfl
  · have hapart : loc' ≠ loc := by
      rintro rfl
      exact hne hother
    simp only [bind, Except.bind, node?_put_of_ne hapart]

/-- Different names in one directory lead to different locations. -/
theorem resolve_join_injective {dir name other : String} (hname : Path.IsName name)
    (hother : Path.IsName other) (h : tree.resolve (Path.join dir name) = .ok loc)
    (h' : tree.resolve (Path.join dir other) = .ok loc) : name = other := by
  obtain ⟨others, hothers⟩ := Path.exists_parts_join dir
  obtain ⟨start, hstart, hstep⟩ := resolve_of_parts h (hothers name hname).1
  obtain ⟨start', hstart', hstep'⟩ := resolve_of_parts h' (hothers other hother).1
  rw [(hothers name hname).2] at hstart
  rw [(hothers other hother).2, hstart] at hstart'
  cases hstart'
  exact step_injective hname hother hstep hstep'

/-- A path that ends in two names leads into the directory that the first of them names. -/
theorem resolve_of_parts_pair {path part name : String} {others : List String}
    (hname : Path.IsName name) (hup : name ≠ "..") (h : tree.resolve path = .ok loc)
    (hparts : Path.parts path = others ++ [part, name]) :
    ∃ holder mid,
      others.foldlM tree.step (if Path.isAbsolute path then ["/"] else []) = .ok holder ∧
      tree.step holder part = .ok mid ∧ loc = mid ++ [name] := by
  have hsplit : Path.parts path = (others ++ [part]) ++ [name] := by
    rw [hparts, List.append_assoc, List.singleton_append]
  obtain ⟨mid, hmid, hlast⟩ := resolve_of_parts h hsplit
  rw [List.foldlM_append] at hmid
  obtain ⟨holder, hholder, hrest⟩ := exists_of_bind_eq_ok hmid
  rw [List.foldlM_cons] at hrest
  obtain ⟨next, hstep, hnext⟩ := exists_of_bind_eq_ok hrest
  cases hnext
  have hloc := (step_eq_ok_iff.mp hlast).2
  rw [if_neg (by simp [hname.ne_empty, hname.ne_dot]), if_neg hup] at hloc
  exact ⟨holder, mid, hholder, hstep, hloc.2⟩

/-- Names in one directory lead to different locations also where a file has the same name in each
of them. -/
theorem resolve_join_pair_injective {dir stem stem' name : String} (hstem : Path.IsName stem)
    (hstem' : Path.IsName stem') (hname : Path.IsName name) (hup : name ≠ "..")
    (h : tree.resolve (Path.join dir (stem ++ "/" ++ name)) = .ok loc)
    (h' : tree.resolve (Path.join dir (stem' ++ "/" ++ name)) = .ok loc) : stem = stem' := by
  obtain ⟨others, hothers⟩ := Path.exists_parts_join_append dir
  obtain ⟨hparts, hrelative⟩ := Path.parts_of_isName_pair hstem hname
  obtain ⟨hparts', hrelative'⟩ := Path.parts_of_isName_pair hstem' hname
  obtain ⟨hjoin, habsolute⟩ := hothers _ hrelative
  obtain ⟨hjoin', habsolute'⟩ := hothers _ hrelative'
  rw [hparts] at hjoin
  rw [hparts'] at hjoin'
  obtain ⟨holder, mid, hholder, hstep, hmid⟩ := resolve_of_parts_pair hname hup h hjoin
  obtain ⟨holder', mid', hholder', hstep', hmid'⟩ := resolve_of_parts_pair hname hup h' hjoin'
  rw [habsolute] at hholder
  rw [habsolute', hholder] at hholder'
  cases hholder'
  obtain rfl : mid = mid' := List.append_cancel_right (hmid.symm.trans hmid')
  exact step_injective hstem hstem' hstep hstep'

section Independent

variable {dir name other : String} (hname : Path.IsName name) (hother : Path.IsName other)

include hname hother

/-- Once a name in a directory can be followed, every name in it names the same place as long as
directories stay directories. -/
theorem KeepsDirs.resolveName_join (h : tree.KeepsDirs tree')
    (hloc : tree.resolve (Path.join dir name) = .ok loc) :
    tree'.resolveName (Path.join dir other) = tree.resolveName (Path.join dir other) := by
  obtain ⟨others, hothers⟩ := Path.exists_parts_join dir
  obtain ⟨holder, hholder, hstep⟩ := resolve_of_parts hloc (hothers name hname).1
  have hdir : tree.node? holder = some .directory := (step_eq_ok_iff.mp hstep).1
  have hlast : tree'.step holder other = tree.step holder other := by
    simp only [FileTree.step, requireDir, hdir, h holder hdir]
  cases hstart : startOf (Path.join dir other) with
  | error e =>
    unfold FileTree.resolveName
    rw [hstart]
    rfl
  | ok start =>
    have hfold : others.foldlM tree.step start = .ok holder := by
      rw [startOf_eq_ok hstart, (hothers other hother).2, ← (hothers name hname).2, hholder]
    have hfold' : others.foldlM tree'.step start = .ok holder := h.foldlM hfold
    unfold FileTree.resolveName
    rw [Path.split_of_parts (hothers other hother).1 hother.ne_empty, hstart]
    simp only [bind, Except.bind, hfold, hfold', hlast]

/-- Writing a file under one name in a directory leaves the other names alone. -/
theorem unaffected_join (hne : other ≠ name) (tree : FileTree) :
    tree.Unaffected (Path.join dir name) (Path.join dir other) := by
  intro loc content h
  have hloc := resolve_of_target h
  have hnode := (target_eq_ok_iff.mp h).2.2
  obtain ⟨others, hothers⟩ := Path.exists_parts_join dir
  have hslash : (Path.split (Path.join dir other)).2.2 = false := by
    rw [Path.split_of_parts (hothers other hother).1 hother.ne_empty]
  have hapart (hother' : tree.resolve (Path.join dir other) = .ok loc) : False :=
    hne (resolve_join_injective hother hname hother' hloc)
  refine ⟨fun htarget => hapart (resolve_of_target htarget), ?_⟩
  refine target_put_of_resolveName ?_ fun hnamed => hapart (resolve_of_resolveName hnamed hslash)
  exact (keepsDirs_put hnode (.file content)).resolveName_join hname hother hloc

end Independent

end FileTree

end PropExport
