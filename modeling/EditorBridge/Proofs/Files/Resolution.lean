import EditorBridge.Files.Project
import Mathlib.Data.List.Infix

/-!
# Where paths lead

A path is walked part by part, and each step is taken from a directory (`enter?_eq_some_iff`).
`FileTree.LeadsTo` says where a path leads, whether or not the system takes a path of its length;
this is where it is resolved to, if the system does (`resolve?_eq_some_iff_leadsTo`).

The path of an entry of a directory leads on from where the path of the directory leads
(`leadsTo_join_name`). Only a slash at the end of the directory's path needs care, since it is
not written twice.
-/

namespace EditorBridge

namespace Path

/-- The parts of a directory, after which the name of an entry is put: a slash at the end is not
written twice. -/
def openParts (p : Path) : List String :=
  if p.parts.getLast? = some "" then p.parts.dropLast else p.parts

theorem join_name (p : Path) (name : String) :
    p.join ⟨false, [name]⟩ = ⟨p.absolute, p.openParts ++ [name]⟩ := by
  rw [join, if_neg Bool.false_ne_true]
  exact if_neg fun h => List.cons_ne_nil name [] h.1

end Path

namespace FileTree

variable {root : FileTree} {cwd : List String} {path : Path}

/-! ## Places -/

@[simp] theorem at?_nil (tree : FileTree) : tree.at? [] = some tree := rfl

theorem at?_cons (tree : FileTree) (name : String) (names : List String) :
    tree.at? (name :: names) = (tree.child? name).bind fun t => t.at? names := by
  rw [at?, List.foldlM_cons]
  rfl

theorem at?_file_cons (content : List UInt8) (name : String) (names : List String) :
    (file content).at? (name :: names) = none := rfl

theorem at?_concat (root : FileTree) (names : List String) (name : String) :
    root.at? (names ++ [name]) = (root.at? names).bind (child? name) := by
  rw [at?, List.foldlM_append]
  change (root.at? names).bind _ = _
  congr
  funext t
  rw [List.foldlM_cons]
  cases t.child? name <;> rfl

/-! ## Steps -/

/-- A step is taken from a directory: it stays, or goes up, or goes down to an entry. -/
theorem enter?_eq_some_iff {root : FileTree} {place next : List String} {part : String} :
    enter? root place part = some next ↔
      ∃ entries, root.at? place.reverse = some (.directory entries) ∧
      if part = "" ∨ part = "." then next = place
      else if part = ".." then next = place.tail
      else next = part :: place ∧ ∃ t, entries.lookup part = some t := by
  unfold enter?
  cases root.at? place.reverse with
  | none => simp
  | some t =>
    cases t with
    | file content => simp
    | directory entries =>
      simp only [Option.some.injEq, directory.injEq, exists_eq_left']
      split_ifs with hidle hup hdown
      · exact ⟨fun h => (Option.some.inj h).symm, fun h => h ▸ rfl⟩
      · exact ⟨fun h => (Option.some.inj h).symm, fun h => h ▸ rfl⟩
      · rw [← Option.isSome_iff_exists]
        exact ⟨fun h => ⟨(Option.some.inj h).symm, hdown⟩, fun h => h.1 ▸ rfl⟩
      · rw [← Option.isSome_iff_exists]
        exact ⟨fun h => (nomatch h), fun h => absurd h.2 hdown⟩

/-! ## Paths -/

/-- The path leads to this place, whether or not the system takes a path of its length. -/
def LeadsTo (root : FileTree) (cwd : List String) (path : Path) (place : List String) : Prop :=
  path.parts.foldlM (enter? root) (if path.absolute then [] else cwd.reverse) = some place.reverse

theorem resolve?_eq_some_iff {place : List String} :
    root.resolve? cwd path = some place ↔
      path.render.utf8ByteSize ≤ maxPathBytes ∧
        ∃ backwards, path.parts.foldlM (enter? root)
          (if path.absolute then [] else cwd.reverse) = some backwards ∧
          backwards.reverse = place := by
  unfold resolve?
  split
  · rename_i hlong
    exact ⟨fun h => (nomatch h), fun h => absurd h.1 (by omega)⟩
  · rename_i hlong
    rw [Option.map_eq_some_iff]
    exact ⟨fun h => ⟨by omega, h⟩, fun h => h.2⟩

theorem resolve?_eq_some_iff_leadsTo {place : List String} :
    root.resolve? cwd path = some place ↔
      path.render.utf8ByteSize ≤ maxPathBytes ∧ root.LeadsTo cwd path place := by
  rw [resolve?_eq_some_iff, LeadsTo]
  simp only [List.reverse_eq_iff, exists_eq_right]

/-- A path that ends with a proper name leads to a place of this name. -/
theorem getLast?_of_resolve? {names place : List String} {name : String}
    (hparts : path.parts = names ++ [name]) (hname : name ≠ "" ∧ name ≠ "." ∧ name ≠ "..")
    (h : root.resolve? cwd path = some place) : place.getLast? = some name := by
  obtain ⟨-, backwards, hwalk, rfl⟩ := resolve?_eq_some_iff.mp h
  rw [hparts, List.foldlM_append] at hwalk
  obtain ⟨place, -, hlast⟩ := Option.bind_eq_some_iff.mp hwalk
  rw [List.foldlM_cons] at hlast
  obtain ⟨next, hstep, hnext⟩ := Option.bind_eq_some_iff.mp hlast
  obtain rfl : next = backwards := Option.some.inj hnext
  obtain ⟨entries, -, hstep⟩ := enter?_eq_some_iff.mp hstep
  rw [if_neg (by simp [hname]), if_neg hname.2.2] at hstep
  rw [hstep.1]
  simp

/-- A file is found where the path leads to one, if the system takes the path. -/
theorem isFile_iff (hne : path.isEmpty = false) :
    root.isFile cwd path = true ↔ path.render.utf8ByteSize ≤ maxPathBytes ∧
      ∃ place content, root.LeadsTo cwd path place ∧ root.at? place = some (.file content) := by
  rw [isFile, read?, find?, if_neg (by simp [hne]), Option.isSome_iff_exists]
  constructor
  · rintro ⟨content, hcontent⟩
    obtain ⟨t, ht, hfile⟩ := Option.bind_eq_some_iff.mp hcontent
    obtain ⟨place, hplace, hat⟩ := Option.bind_eq_some_iff.mp ht
    obtain ⟨hshort, hleads⟩ := resolve?_eq_some_iff_leadsTo.mp hplace
    cases t with
    | file content' => exact ⟨hshort, place, content', hleads, hat⟩
    | directory entries => cases hfile
  · rintro ⟨hshort, place, content, hleads, hat⟩
    refine ⟨content, ?_⟩
    rw [resolve?_eq_some_iff_leadsTo.mpr ⟨hshort, hleads⟩, Option.bind_some, hat]
    rfl

/-! ## Entries of a directory -/

/-- A slash at the end of a path only asks for a directory. -/
theorem leadsTo_iff_openParts {dir : Path} {place : List String}
    {entries : List (String × FileTree)} (h : root.at? place = some (.directory entries)) :
    root.LeadsTo cwd dir place ↔ dir.openParts.foldlM (enter? root)
      (if dir.absolute then [] else cwd.reverse) = some place.reverse := by
  have hstay : ∀ here, enter? root here "" = some place.reverse ↔ here = place.reverse := by
    intro here
    rw [enter?_eq_some_iff]
    constructor
    · rintro ⟨_, -, hnext⟩
      rw [if_pos (Or.inl rfl)] at hnext
      exact hnext.symm
    · rintro rfl
      exact ⟨entries, by rwa [List.reverse_reverse], by rw [if_pos (Or.inl rfl)]⟩
  rw [LeadsTo, Path.openParts]
  by_cases hlast : dir.parts.getLast? = some ""
  · obtain ⟨before, hparts⟩ := List.getLast?_eq_some_iff.mp hlast
    rw [if_pos hlast, hparts, List.dropLast_concat, List.foldlM_append]
    simp only [List.foldlM_cons, List.foldlM_nil, bind_pure, Option.bind_eq_bind,
      Option.bind_eq_some_iff, hstay, exists_eq_right]
  · rw [if_neg hlast]

/-- The path of an entry leads on from its directory. -/
theorem leadsTo_join_name {dir : Path} {name : String}
    (hname : name ≠ "" ∧ name ≠ "." ∧ name ≠ "..") {below : List String} :
    root.LeadsTo cwd (dir.join ⟨false, [name]⟩) below ↔
      ∃ place entries t, root.LeadsTo cwd dir place ∧
        root.at? place = some (.directory entries) ∧ entries.lookup name = some t ∧
        below = place ++ [name] := by
  have hproper : ¬ (name = "" ∨ name = ".") := not_or.mpr ⟨hname.1, hname.2.1⟩
  rw [LeadsTo, Path.join_name, List.foldlM_append]
  simp only [List.foldlM_cons, List.foldlM_nil, bind_pure, Option.bind_eq_bind,
    Option.bind_eq_some_iff, enter?_eq_some_iff, if_neg hproper, if_neg hname.2.2]
  constructor
  · rintro ⟨here, hwalk, entries, hentries, hbelow, t, ht⟩
    have hleads : root.LeadsTo cwd dir here.reverse :=
      (leadsTo_iff_openParts hentries).mpr (by rwa [List.reverse_reverse])
    refine ⟨here.reverse, entries, t, hleads, hentries, ht, ?_⟩
    rw [← List.reverse_inj, hbelow]
    simp
  · rintro ⟨place, entries, t, hleads, hentries, ht, rfl⟩
    exact ⟨place.reverse, (leadsTo_iff_openParts hentries).mp hleads, entries,
      by rwa [List.reverse_reverse], by simp, t, ht⟩

/-- The name of a project file. -/
def projectName : String := ".merlin"

theorem isProper_projectName : projectName ≠ "" ∧ projectName ≠ "." ∧ projectName ≠ ".." := by
  decide

end FileTree

end EditorBridge
