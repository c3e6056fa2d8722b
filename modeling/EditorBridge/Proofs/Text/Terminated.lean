import EditorBridge.Proofs.Text.Place
import Mathlib.Data.List.Infix

/-!
# Texts made of lines

`chars lines` are the characters of `terminated lines`. If no line holds a line feed, the text of
`n` lines ends at the start of line `n + 1` (`place_chars`), and a beginning of the text that ends
inside line `i + 1` consists of the first `i` lines and as many characters of the next one as its
column says (`eq_of_prefix_chars`).
-/

namespace EditorBridge.Text

/-- The characters of some lines, each with a line feed at its end. -/
def chars (lines : List String) : List Char := lines.flatMap fun line => line.toList ++ ['\n']

/-- A line holds no line feed. -/
def IsLine (line : String) : Prop := '\n' ∉ line.toList

theorem toList_terminated (lines : List String) : (terminated lines).toList = chars lines := by
  rw [terminated, String.toList_join, List.flatMap_map]
  simp [chars]

@[simp] theorem chars_nil : chars [] = [] := rfl

@[simp] theorem chars_cons (line : String) (lines : List String) :
    chars (line :: lines) = line.toList ++ '\n' :: chars lines := by
  simp [chars]

@[simp] theorem chars_append (ls ms : List String) : chars (ls ++ ms) = chars ls ++ chars ms := by
  simp [chars]

theorem prefix_chars {ls ms : List String} (h : ls <+: ms) : chars ls <+: chars ms := by
  obtain ⟨rest, rfl⟩ := h
  rw [chars_append]
  exact List.prefix_append _ _

theorem prefix_chars_take (lines : List String) (n : Nat) : chars (lines.take n) <+: chars lines :=
  prefix_chars (List.take_prefix n lines)

theorem chars_take_succ {lines : List String} {i : Nat} (hi : i < lines.length) :
    chars (lines.take (i + 1)) = chars (lines.take i) ++ (lines[i].toList ++ ['\n']) := by
  rw [List.take_succ_eq_append_getElem hi, chars_append, chars_cons, chars_nil]

/-! ## Where lines end -/

theorem placeFrom_of_notMem {cs : List Char} (h : '\n' ∉ cs) (p : Position) :
    placeFrom p cs = ⟨p.line, p.col + cs.length⟩ := by
  induction cs generalizing p with
  | nil => rfl
  | cons c cs ih =>
    have hc : c ≠ '\n' := fun e => h (e ▸ List.mem_cons_self)
    rw [placeFrom_cons, ih (fun hm => h (List.mem_cons_of_mem c hm)), advance, if_neg hc]
    simp [Nat.add_comm, Nat.add_left_comm]

theorem placeFrom_line {line : String} (h : IsLine line) (p : Position) :
    placeFrom p (line.toList ++ ['\n']) = ⟨p.line + 1, 0⟩ := by
  rw [placeFrom_append, placeFrom_of_notMem h]
  simp [advance]

theorem placeFrom_chars {lines : List String} (h : ∀ line ∈ lines, IsLine line) (n : Nat) :
    placeFrom ⟨n, 0⟩ (chars lines) = ⟨n + lines.length, 0⟩ := by
  induction lines generalizing n with
  | nil => rfl
  | cons line lines ih =>
    have hrest : ∀ l ∈ lines, IsLine l := fun l hl => h l (List.mem_cons_of_mem line hl)
    rw [show line :: lines = [line] ++ lines from rfl, chars_append, placeFrom_append, chars_cons,
      chars_nil, placeFrom_line (h line List.mem_cons_self), ih hrest]
    simp [Nat.add_comm, Nat.add_left_comm]

/-- **The text of `n` lines ends at the start of line `n + 1`.** -/
theorem place_chars {lines : List String} (h : ∀ line ∈ lines, IsLine line) :
    place (chars lines) = ⟨lines.length + 1, 0⟩ := by
  rw [place, placeFrom_chars h, Nat.add_comm]

theorem place_chars_take {lines : List String} (h : ∀ line ∈ lines, IsLine line) {i : Nat}
    (hi : i ≤ lines.length) : place (chars (lines.take i)) = ⟨i + 1, 0⟩ := by
  rw [place_chars (fun l hl => h l (List.mem_of_mem_take hl)), List.length_take_of_le hi]

theorem place_chars_take_append {lines : List String} (h : ∀ line ∈ lines, IsLine line) {i : Nat}
    (hi : i ≤ lines.length) {cs : List Char} (hcs : '\n' ∉ cs) :
    place (chars (lines.take i) ++ cs) = ⟨i + 1, cs.length⟩ := by
  rw [place_append, place_chars_take h hi, placeFrom_of_notMem hcs]
  simp

/-- **A beginning of the text that ends inside a line** consists of the lines before it and of as
many of its characters as the column says. -/
theorem eq_of_prefix_chars {lines : List String} (h : ∀ line ∈ lines, IsLine line)
    {front : List Char} (hf : front <+: chars lines) {i : Nat} (hi : i < lines.length)
    (hline : (place front).line = i + 1) :
    front = chars (lines.take i) ++ lines[i].toList.take (place front).col := by
  have hbefore : chars (lines.take i) <+: front := by
    refine prefix_of_place_le (prefix_chars_take lines i) hf ?_
    rw [place_chars_take h (by omega)]
    exact Or.inr ⟨hline.symm, Nat.zero_le _⟩
  obtain ⟨within, rfl⟩ := hbefore
  have hafter : chars (lines.take i) ++ within <+: chars (lines.take (i + 1)) := by
    refine prefix_of_place_le hf (prefix_chars_take lines (i + 1)) ?_
    rw [place_chars_take h (by omega)]
    exact Or.inl (hline ▸ Nat.lt_succ_self _)
  rw [chars_take_succ hi, List.prefix_append_right_inj, List.prefix_concat_iff] at hafter
  rcases hafter with hall | hpart
  · -- the whole line with its line feed would end on the next line
    subst hall
    rw [place_append, place_chars_take h (by omega),
      placeFrom_line (h _ (List.getElem_mem hi))] at hline
    simp at hline
  · have hplain : '\n' ∉ within := fun hm =>
      h _ (List.getElem_mem hi) (hpart.subset hm)
    rw [place_chars_take_append h (by omega) hplain]
    simp only
    rw [← List.prefix_iff_eq_take.mp hpart]

end EditorBridge.Text
