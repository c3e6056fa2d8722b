import EditorBridge.Proofs.Text.Terminated

/-!
# What cutting into lines keeps

A text that is cut into lines and written line by line comes back with two changes: a carriage
return with a line feed after it has become the line feed alone (`unixEnds`), and a last line
without a line feed has got one (`closed`). Every other character is what it was, also a carriage
return that stands alone (`chars_lines`).

Both sides are read line by line: `induction_on_lines` takes the first line from a text, and there
is one lemma for each function about a text with a first line and one about a text without line
feeds.
-/

namespace EditorBridge.Text

/-- The text with a line feed at its end, unless there is one or the text is empty. -/
def closed (cs : List Char) : List Char :=
  if cs = [] ∨ cs.getLast? = some '\n' then cs else cs ++ ['\n']

/-- Some lines have the line feeds at their ends, and those that they hold. -/
theorem count_chars_eq (lines : List String) :
    (chars lines).count '\n' = lines.length + (lines.flatMap String.toList).count '\n' := by
  induction lines with
  | nil => rfl
  | cons line lines ih =>
    rw [chars_cons, List.count_append, List.count_cons_self, ih, List.length_cons,
      List.flatMap_cons, List.count_append]
    omega

/-- There are as many lines as line feeds in their text just if no line holds one. -/
theorem count_chars_iff {lines : List String} :
    (chars lines).count '\n' = lines.length ↔ ∀ line ∈ lines, IsLine line := by
  rw [count_chars_eq, Nat.add_eq_left, List.count_eq_zero, List.mem_flatMap]
  simp only [IsLine, not_exists, not_and]

end EditorBridge.Text
