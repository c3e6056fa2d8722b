import EditorBridge.Files.Surroundings
import EditorBridge.Proofs.Files.Resolution

/-!
# Trees without project files

`FileTree.bare` is a tree from which all project files have been taken away. Nothing else changes:
a path leads to the same place and finds the same there, as long as this is no project file
(`read?_bare`). And no search finds a project file in a bare tree (`Project.search_bare`).

A path that goes on behind a project file leads nowhere in the first place, since project files are
files. So all steps of a path but the last are the same in both trees.
-/

namespace EditorBridge

namespace FileTree

/-- Whether the project file is among the entries of a directory. -/
def hasProject (entries : List (String × FileTree)) : Bool :=
  (entries.lookup projectName).any fun tree => !tree.isDirectory

mutual

/-- The tree without its project files. -/
def bare : FileTree → FileTree
  | .file content => .file content
  | .directory entries => .directory (bareEntries (hasProject entries) entries)

/-- The entries with bare trees, perhaps without those that have the name of project files. -/
def bareEntries (drop : Bool) : List (String × FileTree) → List (String × FileTree)
  | [] => []
  | (name, tree) :: entries =>
    if drop && name == projectName then bareEntries drop entries
    else (name, tree.bare) :: bareEntries drop entries

end

/-- Whether a tree is a project file, if it goes by a name. -/
def isProject (name : Option String) (tree : FileTree) : Bool :=
  name == some projectName && !tree.isDirectory

/-- What is left of a tree that goes by a name. -/
def spared? (name : Option String) (tree : FileTree) : Option FileTree :=
  if tree.isProject name then none else some tree.bare

@[simp] theorem content?_bare (tree : FileTree) : tree.bare.content? = tree.content? := by
  cases tree <;> simp [bare, FileTree.content?]

theorem lookup_bareEntries (drop : Bool) (name : String) (entries : List (String × FileTree)) :
    (bareEntries drop entries).lookup name =
      if drop && name == projectName then none else (entries.lookup name).map bare := by
  induction entries with
  | nil => simp [bareEntries]
  | cons entry entries ih =>
    obtain ⟨other, tree⟩ := entry
    rw [bareEntries]
    by_cases h : name = other
    · subst h
      by_cases hdrop : (drop && name == projectName) = true
      · rw [if_pos hdrop, ih, if_pos hdrop, if_pos hdrop]
      · rw [if_neg hdrop, if_neg hdrop]
        simp
    · have hother : ∀ tree : FileTree, ∀ entries : List (String × FileTree),
          ((other, tree) :: entries).lookup name = entries.lookup name := by
        intro tree entries
        rw [List.lookup_cons, beq_false_of_ne h]
      split
      · rw [ih, hother]
      · rw [hother, ih, hother]

/-- A child of a bare tree is what is left of the child. -/
theorem child?_bare (name : String) (tree : FileTree) :
    tree.bare.child? name = (tree.child? name).bind (spared? (some name)) := by
  cases tree with
  | file content =>
    rw [bare]
    rfl
  | directory entries =>
    rw [bare]
    change (bareEntries _ entries).lookup name = (entries.lookup name).bind _
    rw [lookup_bareEntries]
    cases ht : entries.lookup name with
    | none => simp
    | some t =>
      by_cases h : name = projectName
      · subst h
        cases hd : t.isDirectory <;> simp [hasProject, ht, spared?, isProject, hd]
      · simp [spared?, isProject, h]

theorem eq_file_of_isDirectory {tree : FileTree} (h : tree.isDirectory = false) :
    ∃ content, tree = .file content := by
  cases tree with
  | file content => exact ⟨content, rfl⟩
  | directory entries => cases h

/-- **At every place of a bare tree is what is left of what was there.** -/
theorem at?_bare (root : FileTree) (names : List String) :
    root.bare.at? names = (root.at? names).bind (spared? names.getLast?) := by
  induction names generalizing root with
  | nil => simp [spared?, isProject]
  | cons name names ih =>
    rw [at?_cons, at?_cons, child?_bare]
    cases root.child? name with
    | none => rfl
    | some t =>
      simp only [Option.bind_some]
      cases names with
      | nil => cases hp : t.isProject (some name) <;> simp [spared?, hp]
      | cons next names =>
        rw [List.getLast?_cons_cons]
        cases hd : t.isDirectory with
        | true =>
          have hspared : spared? (some name) t = some t.bare := by simp [spared?, isProject, hd]
          rw [hspared]
          exact ih t
        | false =>
          -- nothing is behind a file, whether it is a project file or not
          obtain ⟨content, rfl⟩ := eq_file_of_isDirectory hd
          rw [at?_file_cons, spared?]
          split <;> rfl

/-- A project file is at this place. -/
def HasProjectAt (root : FileTree) (place : List String) : Prop :=
  ∃ t, root.at? place = some t ∧ t.isProject place.getLast? = true

theorem not_hasProjectAt_of_directory {root : FileTree} {place : List String}
    {entries : List (String × FileTree)} (h : root.at? place = some (.directory entries)) :
    ¬ root.HasProjectAt place := by
  rintro ⟨t, ht, hproject⟩
  rw [h] at ht
  obtain rfl := Option.some.inj ht
  simp [isProject, isDirectory] at hproject

/-! ## Steps -/

theorem bare_directory (entries : List (String × FileTree)) :
    (directory entries).bare = .directory (bareEntries (hasProject entries) entries) := by
  rw [bare]

/-- A directory of a bare tree is what is left of one. -/
theorem at?_bare_eq_directory_iff {root : FileTree} {place : List String}
    {entries : List (String × FileTree)} :
    root.bare.at? place = some (.directory entries) ↔
      ∃ full, root.at? place = some (.directory full) ∧
        entries = bareEntries (hasProject full) full := by
  rw [at?_bare]
  cases root.at? place with
  | none => simp
  | some t =>
    cases t with
    | file content =>
      simp only [Option.bind_some, spared?]
      split <;> simp [bare]
    | directory full =>
      have hspared : spared? place.getLast? (directory full) =
          some (.directory (bareEntries (hasProject full) full)) := by
        simp [spared?, isProject, isDirectory, bare_directory]
      simp only [Option.bind_some, hspared, Option.some.injEq, directory.injEq, exists_eq_left']
      exact eq_comm

/-- A step in a bare tree can be taken in the full one. -/
theorem enter?_of_bare {root : FileTree} {place next : List String} {part : String}
    (h : enter? root.bare place part = some next) : enter? root place part = some next := by
  obtain ⟨entries, hentries, hstep⟩ := enter?_eq_some_iff.mp h
  obtain ⟨full, hfull, rfl⟩ := at?_bare_eq_directory_iff.mp hentries
  refine enter?_eq_some_iff.mpr ⟨full, hfull, ?_⟩
  split_ifs at hstep ⊢
  · exact hstep
  · exact hstep
  · obtain ⟨hnext, t, ht⟩ := hstep
    have hchild := child?_bare part (directory full)
    rw [bare_directory] at hchild
    change (bareEntries _ full).lookup part = (full.lookup part).bind _ at hchild
    rw [ht] at hchild
    obtain ⟨u, hu, -⟩ := Option.bind_eq_some_iff.mp hchild.symm
    exact ⟨hnext, u, hu⟩

/-- A step can be taken in the bare tree if it does not lead to a project file. -/
theorem enter?_bare {root : FileTree} {place next : List String} {part : String}
    (h : enter? root place part = some next) (hnext : ¬ root.HasProjectAt next.reverse) :
    enter? root.bare place part = some next := by
  obtain ⟨full, hfull, hstep⟩ := enter?_eq_some_iff.mp h
  refine enter?_eq_some_iff.mpr ⟨_, at?_bare_eq_directory_iff.mpr ⟨full, hfull, rfl⟩, ?_⟩
  split_ifs at hstep ⊢
  · exact hstep
  · exact hstep
  · obtain ⟨rfl, t, ht⟩ := hstep
    have hproject : t.isProject (some part) = false := by
      by_contra htrue
      refine hnext ⟨t, ?_, ?_⟩
      · rw [List.reverse_cons, at?_concat, hfull]
        exact ht
      · simpa using htrue
    have hchild := child?_bare part (directory full)
    rw [bare_directory] at hchild
    change (bareEntries _ full).lookup part = (full.lookup part).bind _ at hchild
    refine ⟨rfl, t.bare, ?_⟩
    rw [hchild, ht]
    simp [spared?, hproject]

/-! ## Paths -/

theorem walk_of_bare {root : FileTree} {parts start place : List String}
    (h : parts.foldlM (enter? root.bare) start = some place) :
    parts.foldlM (enter? root) start = some place := by
  induction parts generalizing start with
  | nil => exact h
  | cons part parts ih =>
    rw [List.foldlM_cons] at h ⊢
    obtain ⟨next, hstep, hrest⟩ := Option.bind_eq_some_iff.mp h
    exact Option.bind_eq_some_iff.mpr ⟨next, enter?_of_bare hstep, ih hrest⟩

/-- Only the last step of a walk can lead to a project file, since no step leads on from there. -/
theorem walk_bare {root : FileTree} {parts start place : List String}
    (h : parts.foldlM (enter? root) start = some place)
    (hplace : ¬ root.HasProjectAt place.reverse) :
    parts.foldlM (enter? root.bare) start = some place := by
  induction parts generalizing start with
  | nil => exact h
  | cons part parts ih =>
    rw [List.foldlM_cons] at h ⊢
    obtain ⟨next, hstep, hrest⟩ := Option.bind_eq_some_iff.mp h
    refine Option.bind_eq_some_iff.mpr ⟨next, enter?_bare hstep ?_, ih hrest⟩
    cases parts with
    | nil =>
      obtain rfl : next = place := Option.some.inj hrest
      exact hplace
    | cons part' parts =>
      rw [List.foldlM_cons] at hrest
      obtain ⟨_, hstep', -⟩ := Option.bind_eq_some_iff.mp hrest
      obtain ⟨entries, hentries, -⟩ := enter?_eq_some_iff.mp hstep'
      exact not_hasProjectAt_of_directory hentries

variable {root : FileTree} {cwd : List String} {path : Path}

/-- The path leads to a project file. -/
def LeadsToProject (root : FileTree) (cwd : List String) (path : Path) : Prop :=
  ∃ place, root.resolve? cwd path = some place ∧ root.HasProjectAt place

theorem resolve?_of_bare {place : List String}
    (h : root.bare.resolve? cwd path = some place) : root.resolve? cwd path = some place := by
  obtain ⟨hshort, backwards, hwalk, hplace⟩ := resolve?_eq_some_iff.mp h
  exact resolve?_eq_some_iff.mpr ⟨hshort, backwards, walk_of_bare hwalk, hplace⟩

/-- A path that does not lead to a project file leads to the same place in the bare tree. -/
theorem resolve?_bare (h : ¬ root.LeadsToProject cwd path) :
    root.bare.resolve? cwd path = root.resolve? cwd path := by
  refine Option.ext fun place => ⟨resolve?_of_bare, fun hplace => ?_⟩
  obtain ⟨hshort, backwards, hwalk, rfl⟩ := resolve?_eq_some_iff.mp hplace
  exact resolve?_eq_some_iff.mpr
    ⟨hshort, backwards, walk_bare hwalk fun hproject => h ⟨_, hplace, hproject⟩, rfl⟩

theorem canonical?_bare (h : ¬ root.LeadsToProject cwd path) :
    root.bare.canonical? cwd path = root.canonical? cwd path := by
  rw [canonical?, canonical?, resolve?_bare h]

theorem find?_bare (h : ¬ root.LeadsToProject cwd path) :
    root.bare.find? cwd path = (root.find? cwd path).map bare := by
  unfold find?
  split_ifs
  · rfl
  · rw [resolve?_bare h]
    cases hplace : root.resolve? cwd path with
    | none => rfl
    | some place =>
      simp only [Option.bind_some]
      rw [at?_bare]
      cases ht : root.at? place with
      | none => rfl
      | some t =>
        have hproject : t.isProject place.getLast? = false := by
          by_contra htrue
          exact h ⟨place, hplace, t, ht, by simpa using htrue⟩
        simp [spared?, hproject]

/-- **A file that is no project file has the same content in the bare tree.** -/
theorem read?_bare (h : ¬ root.LeadsToProject cwd path) :
    root.bare.read? cwd path = root.read? cwd path := by
  rw [read?, read?, find?_bare h]
  cases root.find? cwd path <;> simp

/-- A path with another name at its end does not lead to a project file. -/
theorem not_leadsToProject_of_name {names : List String} {name : String}
    (hparts : path.parts = names ++ [name])
    (hname : name ≠ "" ∧ name ≠ "." ∧ name ≠ ".." ∧ name ≠ projectName) :
    ¬ root.LeadsToProject cwd path := by
  rintro ⟨place, hplace, t, -, hproject⟩
  rw [getLast?_of_resolve? hparts ⟨hname.1, hname.2.1, hname.2.2.1⟩ hplace] at hproject
  simp [isProject, hname] at hproject

/-- **There is no project file in a bare tree.** -/
theorem isFile_bare (root : FileTree) (cwd : List String) (dir : Path) :
    root.bare.isFile cwd (dir.join Project.fileName) = false := by
  obtain ⟨names, hparts⟩ : ∃ names, (dir.join Project.fileName).parts = names ++ [projectName] := by
    refine ⟨if dir.parts.getLast? = some "" then dir.parts.dropLast else dir.parts, ?_⟩
    simp [Path.join, Project.fileName, projectName]
  by_contra htrue
  have hread : (root.bare.read? cwd (dir.join Project.fileName)).isSome = true := by
    rwa [Bool.not_eq_false] at htrue
  obtain ⟨content, hcontent⟩ := Option.isSome_iff_exists.mp hread
  obtain ⟨t, ht, hfile⟩ := Option.bind_eq_some_iff.mp hcontent
  unfold find? at ht
  split_ifs at ht
  obtain ⟨place, hplace, hat⟩ := Option.bind_eq_some_iff.mp ht
  have hlast := getLast?_of_resolve? hparts isProper_projectName hplace
  rw [at?_bare, hlast] at hat
  obtain ⟨u, -, hspared⟩ := Option.bind_eq_some_iff.mp hat
  -- only a directory can be left under this name, and it has no content
  unfold spared? at hspared
  split_ifs at hspared with hproject
  obtain rfl := Option.some.inj hspared
  rw [content?_bare] at hfile
  cases u with
  | file content => exact hproject rfl
  | directory entries => cases hfile

end FileTree

/-- No search finds a project file in a bare tree. It overflows as it does in the full one. -/
theorem Project.search_bare (root : FileTree) (cwd : List String) (dir : Path) (depth : Nat) :
    search (root.bare.isFile cwd) dir depth =
      (search (root.isFile cwd) dir depth).map fun _ => none := by
  rw [search, search]
  cases reach depth with
  | error overflow => rfl
  | ok reach =>
    have hnone : (candidates dir reach).find? (root.bare.isFile cwd) = none := by
      rw [List.find?_eq_none]
      intro path hpath
      obtain ⟨dir', -, rfl⟩ := List.mem_map.mp hpath
      rw [FileTree.isFile_bare]
      exact Bool.false_ne_true
    exact congrArg Except.ok hnone

namespace Surroundings

/-- The surroundings without project files. -/
def bare (s : Surroundings) : Surroundings := { s with files := s.files.bare }

/-- A path leads to a project file. -/
def LeadsToProject (s : Surroundings) (path : Path) : Prop := s.files.LeadsToProject s.cwd path

variable {s : Surroundings} {path : Path}

theorem readText?_bare (h : ¬ s.LeadsToProject path) :
    s.bare.readText? path = s.readText? path := by
  change (s.files.bare.read? s.cwd path).bind _ = _
  rw [FileTree.read?_bare h]
  rfl

theorem exists?_bare (h : ¬ s.LeadsToProject path) : s.bare.exists? path = s.exists? path := by
  change (s.files.bare.find? s.cwd path).isSome = _
  rw [FileTree.find?_bare h, Option.isSome_map]
  rfl

/-- The user's configuration file is no project file. -/
theorem not_leadsToProject_configPath (h : s.configPath? = some path) :
    ¬ s.LeadsToProject path := by
  obtain ⟨dir, -, rfl⟩ := Option.map_eq_some_iff.mp h
  have hparts : (dir.join ⟨false, ["merlin-bridge", "config.toml"]⟩).parts =
      (if dir.parts.getLast? = some "" then dir.parts.dropLast else dir.parts) ++
        ["merlin-bridge"] ++ ["config.toml"] := by
    simp [Path.join]
  exact FileTree.not_leadsToProject_of_name hparts (by decide)

end Surroundings

end EditorBridge
