import EditorBridge.Proofs.Files.Resolution
import EditorBridge.Proofs.Text.Numeral

/-!
# The nearest project file

A search looks into a directory and its parents, one after the other. `Path.above? p k` is the
parent taken `k` times, and a search looks into these directories (`Path.getElem?_ancestors`).

Whether a directory holds a project file is a matter of the tree: the path leads to a directory that
has a file of this name among its entries (`FileTree.HoldsProject`). The empty path leads to the
working directory. The system only finds the file if its path is short enough, and that is all there
is besides (`FileTree.isFile_join_fileName`).

The main statement is `Project.nearest_project_file`: the nearest directory wins, up to the depth,
and a deeper search finds the same file. This fails at the largest depth of all: the number of
directories to look into is one more than a word can hold, and the search overflows before it has
looked into any (`Project.deepest_search_overflows`).
-/

namespace EditorBridge

namespace Path

/-! ## Parents of parents -/

/-- The parent taken so many times. -/
def above? (p : Path) : Nat → Option Path
  | 0 => some p
  | k + 1 => (above? p k).bind parent?

/-- Idle parts at the end make no difference to the parents. -/
theorem parentParts_trimParts (absolute : Bool) (parts : List String) :
    parentParts absolute (trimParts absolute parts) = parentParts absolute parts := by
  induction parts with
  | nil => rfl
  | cons part before ih =>
    rw [trimParts, parentParts]
    split
    · exact ih
    · rename_i hproper
      rw [parentParts, if_neg hproper]

theorem parentParts_of_eq_cons {absolute : Bool} {parts first : List String}
    {others : List (List String)} (h : parentParts absolute parts = first :: others) :
    others = parentParts absolute first := by
  induction parts with
  | nil => cases h
  | cons part before ih =>
    rw [parentParts] at h
    split at h
    · exact ih h
    · obtain ⟨rfl, rfl⟩ := List.cons.inj h
      exact (parentParts_trimParts absolute before).symm

/-- The other parents are those of the first one. -/
theorem parents_of_eq_cons {p q : Path} {others : List Path} (h : p.parents = q :: others) :
    others = q.parents := by
  obtain ⟨first, rest, hparts, rfl, rfl⟩ := List.map_eq_cons_iff.mp h
  rw [parentParts_of_eq_cons hparts, parents, List.reverse_reverse]

theorem getElem?_ancestors_succ (p : Path) (k : Nat) :
    p.ancestors[k + 1]? = p.ancestors[k]?.bind parent? := by
  induction k generalizing p with
  | zero => exact List.head?_eq_getElem?.symm
  | succ k ih =>
    cases hparents : p.parents with
    | nil => simp [ancestors, hparents]
    | cons q others =>
      have htail : p.parents = q.ancestors := by
        rw [hparents, parents_of_eq_cons hparents, ancestors]
      rw [ancestors, List.getElem?_cons_succ, List.getElem?_cons_succ, htail]
      exact ih q

theorem getElem?_ancestors (p : Path) (k : Nat) : p.ancestors[k]? = p.above? k := by
  induction k with
  | zero => rfl
  | succ k ih => rw [getElem?_ancestors_succ, ih, above?]

/-! ## Names without a slash -/

/-- A name is a path of one part, or empty. -/
theorem ofString_of_notMem {name : String} (h : '/' ∉ name.toList) :
    ofString name = ⟨false, if name = "" then [] else [name]⟩ := by
  have hplain : ∀ c ∈ name.toList, (c == '/') = false := fun c hc =>
    beq_eq_false_iff_ne.mpr fun heq => h (heq ▸ hc)
  unfold ofString
  split
  · rename_i rest hslash
    exact absurd (hslash ▸ List.mem_cons_self) h
  · have hpieces : name.toList.splitOn '/' = [name.toList] := List.splitOnP_eq_singleton hplain
    simp only [hpieces, List.map_cons, List.map_nil, String.ofList_toList, String.toList_eq_nil_iff]

/-- The parent of a path of one part is the empty path. -/
theorem isEmpty_of_parent? {name : String} {p : Path} (h : parent? ⟨false, [name]⟩ = some p) :
    p.isEmpty = true := by
  have hparts : parents ⟨false, [name]⟩ = if isIdle false name [] then [] else [⟨false, []⟩] := by
    by_cases hidle : isIdle false name [] = true
    · simp [parents, parentParts, hidle]
    · simp [parents, parentParts, trimParts, hidle]
  rw [parent?, hparts] at h
  split at h
  · cases h
  · obtain rfl := Option.some.inj h
    rfl

end Path

namespace FileTree

/-! ## What a directory holds -/

variable {root : FileTree} {cwd : List String}

/-- The path leads to a directory with a project file among its entries. -/
def HoldsProject (root : FileTree) (cwd : List String) (dir : Path) : Prop :=
  ∃ place entries content, root.LeadsTo cwd dir place ∧
    root.at? place = some (.directory entries) ∧ entries.lookup projectName = some (.file content)

/-- **A project file is found just if the directory holds one,** and the system takes its path. -/
theorem isFile_join_fileName {dir : Path} :
    root.isFile cwd (dir.join Project.fileName) = true ↔ root.HoldsProject cwd dir ∧
      (dir.join Project.fileName).render.utf8ByteSize ≤ maxPathBytes := by
  have hne : (dir.join Project.fileName).isEmpty = false := by
    simp [Project.fileName, Path.join_name, Path.isEmpty]
  rw [isFile_iff hne, and_comm]
  refine and_congr_left fun _ => ?_
  constructor
  · rintro ⟨below, content, hleads, hat⟩
    obtain ⟨place, entries, t, hdir, hentries, ht, rfl⟩ :=
      (leadsTo_join_name isProper_projectName).mp hleads
    rw [at?_concat, hentries] at hat
    exact ⟨place, entries, content, hdir, hentries, hat⟩
  · rintro ⟨place, entries, content, hdir, hentries, ht⟩
    refine ⟨place ++ [projectName], content,
      (leadsTo_join_name isProper_projectName).mpr ⟨place, entries, _, hdir, hentries, ht, rfl⟩, ?_⟩
    rw [at?_concat, hentries]
    exact ht

/-- The directory holds a project file, with a path that the system takes. -/
def OffersProject (root : FileTree) (cwd : List String) (dir : Path) : Prop :=
  root.HoldsProject cwd dir ∧ (dir.join Project.fileName).render.utf8ByteSize ≤ maxPathBytes

end FileTree

namespace Project

variable {isFile : Path → Bool} {dir : Path} {depth : Nat} {file : Path}

/-! ## Searching -/

theorem reach_of_lt (h : depth < Text.maxWord64) : reach depth = .ok (depth + 1) :=
  Text.successor_of_lt h

/-- At the largest depth the number of directories does not fit a word. -/
theorem reach_maxWord64 : reach Text.maxWord64 = .error .addition :=
  Text.successor_of_le (Nat.le_refl _)

theorem search_of_lt (h : depth < Text.maxWord64) :
    search isFile dir depth = .ok ((candidates dir (depth + 1)).find? isFile) := by
  rw [search, reach_of_lt h]
  rfl

theorem search_maxWord64 : search isFile dir Text.maxWord64 = .error .addition := by
  rw [search, reach_maxWord64]
  rfl

/-- A search overflows at the largest depth, and at no other. -/
theorem search_eq_error_iff (h : depth ≤ Text.maxWord64) :
    search isFile dir depth = .error .addition ↔ depth = Text.maxWord64 := by
  rcases Nat.lt_or_eq_of_le h with hlt | rfl
  · rw [search_of_lt hlt]
    exact iff_of_false (fun h => nomatch h) (Nat.ne_of_lt hlt)
  · exact iff_of_true search_maxWord64 rfl

/-- The first directory that has the file is the one that is found. -/
theorem find?_candidates_eq_some_iff {reach : Nat} :
    (candidates dir reach).find? isFile = some file ↔
      ∃ k < reach, ∃ found, dir.above? k = some found ∧ file = found.join fileName ∧
        isFile (found.join fileName) = true ∧
        ∀ j < k, ∀ nearer, dir.above? j = some nearer → isFile (nearer.join fileName) = false := by
  simp only [candidates, List.find?_map, Option.map_eq_some_iff,
    List.find?_eq_some_iff_getElem, List.length_take, Nat.lt_min, List.getElem_take,
    Function.comp_apply, Bool.not_eq_true', ← Path.getElem?_ancestors]
  constructor
  · rintro ⟨found, ⟨hfile, k, ⟨hk, hlength⟩, hfound, hnearer⟩, rfl⟩
    refine ⟨k, hk, found, List.getElem?_eq_some_iff.mpr ⟨hlength, hfound⟩, rfl, hfile, ?_⟩
    intro j hj nearer hat
    obtain ⟨-, rfl⟩ := List.getElem?_eq_some_iff.mp hat
    exact hnearer j hj
  · rintro ⟨k, hk, found, hat, rfl, hfile, hnearer⟩
    obtain ⟨hlength, hfound⟩ := List.getElem?_eq_some_iff.mp hat
    exact ⟨found, ⟨hfile, k, ⟨hk, hlength⟩, hfound,
      fun j hj => hnearer j hj _ (List.getElem?_eq_getElem (Nat.lt_trans hj hlength))⟩, rfl⟩

/-- The file that a search finds is that of the nearest directory, up to the depth. -/
theorem search_eq_some_iff (h : depth ≤ Text.maxWord64) :
    search isFile dir depth = .ok (some file) ↔ depth ≠ Text.maxWord64 ∧
      ∃ k ≤ depth, ∃ found, dir.above? k = some found ∧ file = found.join fileName ∧
        isFile (found.join fileName) = true ∧
        ∀ j < k, ∀ nearer, dir.above? j = some nearer → isFile (nearer.join fileName) = false := by
  rcases Nat.lt_or_eq_of_le h with hlt | rfl
  · rw [search_of_lt hlt, Except.ok.injEq, find?_candidates_eq_some_iff]
    simp only [Nat.lt_succ_iff, ne_eq, Nat.ne_of_lt hlt, not_false_eq_true, true_and]
  · rw [search_maxWord64]
    exact iff_of_false (fun h => nomatch h) fun h => h.1 rfl

/-- A deeper search finds the same file. -/
theorem search_mono {deeper : Nat} (hle : depth ≤ deeper) (hdeeper : deeper < Text.maxWord64)
    (hfile : search isFile dir depth = .ok (some file)) :
    search isFile dir deeper = .ok (some file) := by
  have hdepth : depth ≤ Text.maxWord64 := Nat.le_trans hle (Nat.le_of_lt hdeeper)
  obtain ⟨-, k, hk, hfound⟩ := (search_eq_some_iff hdepth).mp hfile
  exact (search_eq_some_iff (Nat.le_of_lt hdeeper)).mpr
    ⟨Nat.ne_of_lt hdeeper, k, Nat.le_trans hk hle, hfound⟩

theorem searchForFile_of_parent? {path : Path} (hparent : path.parent? = some dir)
    (hne : dir.isEmpty = false) : searchForFile isFile path depth = search isFile dir depth := by
  rw [searchForFile, hparent]
  exact if_neg (by simp [hne])

theorem searchForFile_ofString {name : String} (h : '/' ∉ name.toList) :
    searchForFile isFile (Path.ofString name) depth = .ok none := by
  rw [searchForFile]
  cases hparent : (Path.ofString name).parent? with
  | none => rfl
  | some above =>
    rw [Path.ofString_of_notMem h] at hparent
    split at hparent
    · cases hparent
    · exact if_pos (Path.isEmpty_of_parent? hparent)

/-- **The nearest project file wins, at every depth but the largest.** A search finds the project
file of the directory, or of the nearest of its first `depth` parents, that offers one, and nothing
if none of them does; only at the largest depth it overflows. So a deeper search finds the same
file. The project file of a source file is the one that is found from its parent, and a bare file
name has none. -/
theorem nearest_project_file (root : FileTree) (cwd : List String) (dir : Path) (depth : Nat)
    (hdepth : depth ≤ Text.maxWord64) :
    (∀ file, search (root.isFile cwd) dir depth = .ok (some file) ↔
      depth ≠ Text.maxWord64 ∧ ∃ k ≤ depth, ∃ found, dir.above? k = some found ∧
        file = found.join fileName ∧ root.OffersProject cwd found ∧
        ∀ j < k, ∀ nearer, dir.above? j = some nearer → ¬ root.OffersProject cwd nearer) ∧
    (search (root.isFile cwd) dir depth = .error .addition ↔ depth = Text.maxWord64) ∧
    (∀ file deeper, depth ≤ deeper → deeper < Text.maxWord64 →
      search (root.isFile cwd) dir depth = .ok (some file) →
      search (root.isFile cwd) dir deeper = .ok (some file)) ∧
    (∀ path, path.parent? = some dir → dir.isEmpty = false →
      searchForFile (root.isFile cwd) path depth = search (root.isFile cwd) dir depth) ∧
    ∀ name : String, '/' ∉ name.toList →
      searchForFile (root.isFile cwd) (Path.ofString name) depth = .ok none := by
  refine ⟨fun file => ?_, search_eq_error_iff hdepth,
    fun file deeper hle hdeeper => search_mono hle hdeeper,
    fun path hparent hne => searchForFile_of_parent? hparent hne,
    fun name h => searchForFile_ofString h⟩
  simp only [search_eq_some_iff hdepth, ← Bool.not_eq_true, FileTree.isFile_join_fileName,
    FileTree.OffersProject, and_assoc]

/-- A directory `a` with a project file, and in it a directory `b` with a directory of this name. -/
def nested : FileTree :=
  .directory [("a", .directory [(".merlin", .file []),
    ("b", .directory [(".merlin", .directory []), ("main.ml", .file [])])])]

theorem nearest_project_file_above :
    (0 ≤ Text.maxWord64 ∧ 1 ≤ 18446744073709551614 ∧ 18446744073709551614 < Text.maxWord64) ∧
    search (nested.isFile []) ⟨true, ["a", "b", ""]⟩ 18446744073709551614 =
      .ok (some ⟨true, ["a", ".merlin"]⟩) ∧
    Path.parent? ⟨true, ["a", "main.ml"]⟩ = some ⟨true, ["a"]⟩ ∧
    searchForFile (nested.isFile []) ⟨true, ["a", "main.ml"]⟩ 0 =
      search (nested.isFile []) ⟨true, ["a"]⟩ 0 ∧
    '/' ∉ "main.ml".toList ∧
    searchForFile (nested.isFile ["a", "b"]) (Path.ofString "main.ml") 3 = .ok none :=
  ⟨by decide,
    (nearest_project_file nested [] ⟨true, ["a", "b", ""]⟩ 1 (by decide)).2.2.1 _ _
      (by decide) (by decide) (by rfl),
    by rfl,
    (nearest_project_file nested [] ⟨true, ["a"]⟩ 0 (by decide)).2.2.2.1
      ⟨true, ["a", "main.ml"]⟩ (by rfl) (by rfl),
    by decide,
    (nearest_project_file nested ["a", "b"] ⟨false, []⟩ 3 (by decide)).2.2.2.2 "main.ml"
      (by decide)⟩

/-- At the largest depth nothing is found, not even where the directory itself has the file: the
search overflows. -/
theorem deepest_search_overflows :
    nested.OffersProject [] ⟨true, ["a"]⟩ ∧
    search (nested.isFile []) ⟨true, ["a"]⟩ 0 = .ok (some ⟨true, ["a", ".merlin"]⟩) ∧
    search (nested.isFile []) ⟨true, ["a"]⟩ Text.maxWord64 = .error .addition :=
  ⟨⟨⟨["a"], _, _, rfl, rfl, rfl⟩, by decide⟩, by rfl, search_maxWord64⟩

end Project

end EditorBridge
