import EditorBridge.Proofs.Text.Terminated
import EditorBridge.Text.Lines
import Mathlib.Data.List.SplitBy

/-!
# What squashing writes

A text is cut into runs, which are as long as they can be: a gap is made of spaces and line feeds
only, and any other run has none of them. Squashing writes a gap as one space and any other run as
it is.

`collapseSpaces` only sees the last character before the one that it looks at. That is enough,
since it never meets a gap after a space: two runs that follow each other are of different kinds
(`collapseSpaces_flatten`). And a text that has been squashed is squashed to the same as before, in
whatever text it stands (`collapseSpaces_append_left`, `collapseSpaces_append_right`).

The main statement is `squash_by_runs`.
-/

namespace EditorBridge.Text

/-- Whether a character is a space or a line feed. -/
def isGap (c : Char) : Bool := c == ' ' || c == '\n'

/-- The runs of a text, from left to right. -/
def runs (cs : List Char) : List (List Char) := cs.splitBy fun c d => isGap c == isGap d

/-- What is written for a run. -/
def squashRun (run : List Char) : List Char := if run.all isGap then [' '] else run

/-! ## Spaces for line feeds -/

theorem spaceForLineFeed_ne (c : Char) : spaceForLineFeed c ≠ '\n' := by
  unfold spaceForLineFeed
  split
  · decide
  · assumption

theorem spaceForLineFeed_of_isGap {c : Char} (h : isGap c = true) : spaceForLineFeed c = ' ' := by
  unfold spaceForLineFeed
  split
  · rfl
  · rename_i hne
    simpa [isGap, hne] using h

theorem ne_of_not_isGap {c : Char} (h : isGap c = false) : c ≠ ' ' ∧ c ≠ '\n' := by
  simpa [isGap] using h

theorem map_spaceForLineFeed {cs : List Char} (h : '\n' ∉ cs) : cs.map spaceForLineFeed = cs := by
  refine (List.map_congr_left fun c hc => ?_).trans (List.map_id cs)
  exact if_neg fun (heq : c = '\n') => h (heq ▸ hc)

theorem isLine_onOneLine (text : String) : IsLine (onOneLine text) := by
  intro hmem
  rw [onOneLine, String.toList_ofList] at hmem
  obtain ⟨c, -, hc⟩ := List.mem_map.mp hmem
  exact spaceForLineFeed_ne c hc

theorem mem_of_mem_collapseSpaces {last c : Char} {cs : List Char}
    (h : c ∈ collapseSpaces last cs) : c ∈ cs := by
  induction cs generalizing last with
  | nil => exact h
  | cons d cs ih =>
    rw [collapseSpaces] at h
    split at h
    · exact List.mem_cons_of_mem d (ih h)
    · rcases List.mem_cons.mp h with rfl | h
      · exact List.mem_cons_self
      · exact List.mem_cons_of_mem d (ih h)

theorem isLine_squash (text : String) : IsLine (squash text) := by
  intro hmem
  rw [squash, String.toList_ofList] at hmem
  obtain ⟨c, -, hc⟩ := List.mem_map.mp (mem_of_mem_collapseSpaces hmem)
  exact spaceForLineFeed_ne c hc

/-! ## Collapsing -/

theorem collapseSpaces_space (cs : List Char) :
    collapseSpaces ' ' (' ' :: cs) = collapseSpaces ' ' cs := if_pos ⟨rfl, rfl⟩

theorem collapseSpaces_cons {last c : Char} (h : ¬ (c = ' ' ∧ last = ' ')) (cs : List Char) :
    collapseSpaces last (c :: cs) = c :: collapseSpaces c cs := if_neg h

/-- After a space no space is written. -/
theorem isChain_collapseSpaces (last : Char) (cs : List Char) :
    (last :: collapseSpaces last cs).IsChain fun c d => ¬ (d = ' ' ∧ c = ' ') := by
  induction cs generalizing last with
  | nil => exact List.isChain_singleton last
  | cons c cs ih =>
    by_cases h : c = ' ' ∧ last = ' '
    · obtain ⟨rfl, rfl⟩ := h
      rw [collapseSpaces_space]
      exact ih ' '
    · rw [collapseSpaces_cons h]
      exact List.isChain_cons_cons.mpr ⟨h, ih c⟩

theorem not_infix_collapseSpaces (last : Char) (cs : List Char) :
    ¬ [' ', ' '] <:+: collapseSpaces last cs := by
  intro h
  have hchain := List.IsChain.infix (isChain_collapseSpaces last cs).tail h
  exact List.isChain_pair.mp hchain ⟨rfl, rfl⟩

/-- What has been collapsed is collapsed to the same as before. The first time, no more may have
been left out at the beginning than the second time. -/
theorem collapseSpaces_collapseSpaces {last before : Char} (h : before = ' ' → last = ' ')
    (cs : List Char) :
    collapseSpaces last (collapseSpaces before cs) = collapseSpaces last cs := by
  induction cs generalizing last before with
  | nil => rfl
  | cons c cs ih =>
    by_cases hbefore : c = ' ' ∧ before = ' '
    · obtain ⟨rfl, rfl⟩ := hbefore
      obtain rfl := h rfl
      rw [collapseSpaces_space]
      exact ih fun _ => rfl
    · rw [collapseSpaces_cons hbefore]
      by_cases hlast : c = ' ' ∧ last = ' '
      · obtain ⟨rfl, rfl⟩ := hlast
        rw [collapseSpaces_space, collapseSpaces_space]
        exact ih fun _ => rfl
      · rw [collapseSpaces_cons hlast, collapseSpaces_cons hlast, ih id]

theorem collapseSpaces_append_left (last : Char) (cs ds : List Char) :
    collapseSpaces last (collapseSpaces last cs ++ ds) = collapseSpaces last (cs ++ ds) := by
  induction cs generalizing last with
  | nil => rfl
  | cons c cs ih =>
    by_cases h : c = ' ' ∧ last = ' '
    · obtain ⟨rfl, rfl⟩ := h
      rw [collapseSpaces_space, List.cons_append, collapseSpaces_space]
      exact ih ' '
    · rw [collapseSpaces_cons h, List.cons_append, List.cons_append, collapseSpaces_cons h,
        collapseSpaces_cons h, ih c]

theorem collapseSpaces_append_right {before : Char} (h : before ≠ ' ') (last : Char)
    (cs ds : List Char) :
    collapseSpaces last (cs ++ collapseSpaces before ds) = collapseSpaces last (cs ++ ds) := by
  induction cs generalizing last with
  | nil => exact collapseSpaces_collapseSpaces (fun hspace => absurd hspace h) ds
  | cons c cs ih =>
    by_cases hlast : c = ' ' ∧ last = ' '
    · obtain ⟨rfl, rfl⟩ := hlast
      rw [List.cons_append, List.cons_append, collapseSpaces_space, collapseSpaces_space]
      exact ih ' '
    · rw [List.cons_append, List.cons_append, collapseSpaces_cons hlast, collapseSpaces_cons hlast,
        ih c]

/-! ## Runs -/

/-- The characters of a run are all gaps, or none is. -/
theorem isGap_of_mem_runs {cs run : List Char} (h : run ∈ runs cs) :
    (∀ c ∈ run, isGap c = true) ∨ ∀ c ∈ run, isGap c = false := by
  have hchain : run.IsChain fun c d => isGap c = isGap d :=
    (List.isChain_of_mem_splitBy h).imp fun _ _ => beq_iff_eq.mp
  cases run with
  | nil => exact Or.inl fun _ hc => absurd hc List.not_mem_nil
  | cons c run =>
    have hlike : ∀ d ∈ run, isGap c = isGap d := by
      have : IsTrans Char fun c d => isGap c = isGap d := ⟨fun _ _ _ => Eq.trans⟩
      exact (List.pairwise_cons.mp hchain.pairwise).1
    cases hc : isGap c with
    | true => exact Or.inl (List.forall_mem_cons.mpr ⟨hc, fun d hd => hlike d hd ▸ hc⟩)
    | false => exact Or.inr (List.forall_mem_cons.mpr ⟨hc, fun d hd => hlike d hd ▸ hc⟩)

theorem squashRun_gap {run : List Char} (h : ∀ c ∈ run, isGap c = true) :
    squashRun run = [' '] := if_pos (List.all_eq_true.mpr h)

theorem squashRun_word {run : List Char} (hne : run ≠ []) (h : ∀ c ∈ run, isGap c = false) :
    squashRun run = run := by
  refine if_neg fun hall => ?_
  obtain ⟨c, hc⟩ := List.exists_mem_of_ne_nil run hne
  have hgap := List.all_eq_true.mp hall c hc
  rw [h c hc] at hgap
  exact Bool.false_ne_true hgap

/-- One of two runs that follow each other is a gap and the other is not. -/
def Changes (r s : List Char) : Prop :=
  ∃ hr hs, (isGap (r.getLast hr) == isGap (s.head hs)) = false

theorem isChain_runs (cs : List Char) : (runs cs).IsChain Changes :=
  List.isChain_getLast_head_splitBy (fun c d => isGap c == isGap d) cs

theorem Changes.not_isGap {r s : List Char} (h : Changes r s) (hr : ∀ c ∈ r, isGap c = true)
    (hs : (∀ c ∈ s, isGap c = true) ∨ ∀ c ∈ s, isGap c = false) : ∀ c ∈ s, isGap c = false := by
  obtain ⟨hne, hne', hdiffer⟩ := h
  have hend : isGap (r.getLast hne) = true := hr _ (List.getLast_mem hne)
  rcases hs with hgap | hword
  · have hstart : isGap (s.head hne') = true := hgap _ (List.head_mem hne')
    rw [hend, hstart] at hdiffer
    exact absurd hdiffer (by decide)
  · exact hword

/-- A gap after a space is left out. -/
theorem collapseSpaces_gap_space {run : List Char} (h : ∀ c ∈ run, isGap c = true)
    (rest : List Char) :
    collapseSpaces ' ' (run.map spaceForLineFeed ++ rest) = collapseSpaces ' ' rest := by
  induction run with
  | nil => rfl
  | cons c run ih =>
    obtain ⟨hc, hrun⟩ := List.forall_mem_cons.mp h
    rw [List.map_cons, List.cons_append, spaceForLineFeed_of_isGap hc, collapseSpaces_space]
    exact ih hrun

/-- A gap after another character is written as one space. -/
theorem collapseSpaces_gap {last : Char} (hlast : last ≠ ' ') {run : List Char} (hne : run ≠ [])
    (h : ∀ c ∈ run, isGap c = true) (rest : List Char) :
    collapseSpaces last (run.map spaceForLineFeed ++ rest) = ' ' :: collapseSpaces ' ' rest := by
  cases run with
  | nil => exact absurd rfl hne
  | cons c run =>
    obtain ⟨hc, hrun⟩ := List.forall_mem_cons.mp h
    rw [List.map_cons, List.cons_append, spaceForLineFeed_of_isGap hc,
      collapseSpaces_cons fun hboth => hlast hboth.2, collapseSpaces_gap_space hrun]

/-- Where there are no gaps, every character is written. -/
theorem collapseSpaces_word {run : List Char} (h : ∀ c ∈ run, isGap c = false) (last : Char)
    (rest : List Char) :
    collapseSpaces last (run.map spaceForLineFeed ++ rest) =
      run ++ collapseSpaces (run.getLastD last) rest := by
  induction run generalizing last with
  | nil => rfl
  | cons c run ih =>
    obtain ⟨hc, hrun⟩ := List.forall_mem_cons.mp h
    obtain ⟨hspace, hfeed⟩ := ne_of_not_isGap hc
    have hstays : spaceForLineFeed c = c := if_neg hfeed
    rw [List.map_cons, List.cons_append, hstays, collapseSpaces_cons fun hboth => hspace hboth.1,
      ih hrun, List.getLastD_cons, List.cons_append]

theorem getLastD_ne_space {run : List Char} (hne : run ≠ []) (h : ∀ c ∈ run, isGap c = false)
    (last : Char) : run.getLastD last ≠ ' ' := by
  rw [List.getLastD_eq_getLast?, List.getLast?_eq_some_getLast hne, Option.getD_some]
  exact (ne_of_not_isGap (h _ (List.getLast_mem hne))).1

/-- The runs are written one by one. What carries the induction is that no gap comes after a
space: the first run is no gap if a space was written before it. -/
theorem collapseSpaces_flatten {rs : List (List Char)} (last : Char) (hne : [] ∉ rs)
    (hkind : ∀ run ∈ rs, (∀ c ∈ run, isGap c = true) ∨ ∀ c ∈ run, isGap c = false)
    (hchange : rs.IsChain Changes)
    (hlast : ∀ run ∈ rs.head?, last ≠ ' ' ∨ ∀ c ∈ run, isGap c = false) :
    collapseSpaces last (rs.flatten.map spaceForLineFeed) = rs.flatMap squashRun := by
  induction rs generalizing last with
  | nil => rfl
  | cons run rs ih =>
    obtain ⟨hrun, hruns⟩ := List.forall_mem_cons.mp hkind
    obtain ⟨hnil, hnils⟩ := not_or.mp (List.mem_cons.not.mp hne)
    obtain ⟨hnext, hchanges⟩ := List.isChain_cons.mp hchange
    rw [List.flatten_cons, List.map_append, List.flatMap_cons]
    by_cases hword : ∀ c ∈ run, isGap c = false
    · have hend := getLastD_ne_space (Ne.symm hnil) hword last
      rw [collapseSpaces_word hword, squashRun_word (Ne.symm hnil) hword,
        ih _ hnils hruns hchanges fun _ _ => Or.inl hend]
    · have hgap : ∀ c ∈ run, isGap c = true := hrun.resolve_right hword
      have hspace : last ≠ ' ' := (hlast run rfl).resolve_right hword
      -- the space that is written for this gap is followed by no gap
      have hafter : ∀ next ∈ rs.head?, ' ' ≠ ' ' ∨ ∀ c ∈ next, isGap c = false := fun next hmem =>
        Or.inr ((hnext next hmem).not_isGap hgap (hruns next (List.mem_of_mem_head? hmem)))
      rw [collapseSpaces_gap hspace (Ne.symm hnil) hgap, squashRun_gap hgap,
        ih ' ' hnils hruns hchanges hafter]
      rfl

/-! ## Squashing -/

theorem toList_squash (text : String) :
    (squash text).toList = collapseSpaces '\n' (text.toList.map spaceForLineFeed) :=
  String.toList_ofList

/-- In a squashed text no line feed is left to be replaced. -/
theorem map_toList_squash (text : String) :
    (squash text).toList.map spaceForLineFeed = (squash text).toList :=
  map_spaceForLineFeed (isLine_squash text)

theorem squash_eq_flatMap (text : String) :
    squash text = String.ofList ((runs text.toList).flatMap squashRun) := by
  have hruns := collapseSpaces_flatten '\n' (List.nil_notMem_splitBy _ text.toList)
    (fun run => isGap_of_mem_runs) (isChain_runs text.toList)
    (fun _ _ => Or.inl (by decide))
  rw [List.flatten_splitBy] at hruns
  rw [squash, hruns, runs]

theorem squash_append (s t : String) : squash (squash s ++ squash t) = squash (s ++ t) := by
  have hstart : '\n' ≠ ' ' := by decide
  refine congrArg String.ofList ?_
  calc collapseSpaces '\n' ((squash s ++ squash t).toList.map spaceForLineFeed)
      = collapseSpaces '\n' ((squash s).toList ++ (squash t).toList) := by
        rw [String.toList_append, List.map_append, map_toList_squash, map_toList_squash]
    _ = collapseSpaces '\n' (s.toList.map spaceForLineFeed ++ t.toList.map spaceForLineFeed) := by
        rw [toList_squash, toList_squash, collapseSpaces_append_left,
          collapseSpaces_append_right hstart]
    _ = collapseSpaces '\n' ((s ++ t).toList.map spaceForLineFeed) := by
        rw [String.toList_append, List.map_append]

theorem squash_squash (text : String) : squash (squash text) = squash text := by
  have h := squash_append text ""
  rwa [String.append_empty, show squash "" = "" from rfl, String.append_empty] at h

/-- **Every run of spaces and line feeds becomes one space, and all else stays.** So no line feed
is left and no two spaces stand together, squashing again changes nothing, and the parts of a text
may be squashed before it is. -/
theorem squash_by_runs (text : String) :
    squash text = String.ofList ((runs text.toList).flatMap squashRun) ∧
    IsLine (squash text) ∧
    ¬ [' ', ' '] <:+: (squash text).toList ∧
    squash (squash text) = squash text ∧
    ∀ other, squash (text ++ other) = squash (squash text ++ squash other) := by
  refine ⟨squash_eq_flatMap text, isLine_squash text, ?_, squash_squash text,
    fun other => (squash_append text other).symm⟩
  rw [toList_squash]
  exact not_infix_collapseSpaces '\n' _

example : squash "\n a\t \n\n b \n" = " a\t b " := by decide

end EditorBridge.Text
