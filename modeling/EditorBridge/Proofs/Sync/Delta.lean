import EditorBridge.Proofs.Buffer.Change
import EditorBridge.Sync.Tracker

/-!
# Resume points and deltas

Two things a sync relies on. The resume point of a mark only moves down as the buffer is edited
(`resumePoint_record`), and is the confirmed place as long as it is not (`resumePoint_fresh`).
The delta from a place to the end of a line is what the text before the place lacks: told after
it, the two make up the text of the lines to that end (`append_chars_delta`). Deltas laid end to
end make up a longer one (`delta_append_delta`).
-/

namespace EditorBridge

open Text

namespace Mark

/-- One more edit moves the resume point down to its place, if that is earlier. -/
theorem resumePoint_record {m : Mark} {b : Buffer} (hid : m.checkpoint.buffer = b.id)
    (hrev : m.checkpoint.revision ≤ b.revision) (lines : List String) (p : Position) :
    m.resumePoint (b.record lines p) = min p (m.resumePoint b) := by
  rw [resumePoint, Buffer.changedSince_record hid hrev, resumePoint]
  cases b.changedSince m.checkpoint with
  | none => rfl
  | some q => exact min_assoc p q m.confirmed

theorem resumePoint_fresh {b : Buffer} (hb : b.IsDated) (p : Position) (g : Nat) :
    resumePoint ⟨b.checkpoint, p, g⟩ b = p := by
  rw [resumePoint, Buffer.changedSince_checkpoint hb]

end Mark

namespace Sync

theorem toList_dropChars (n : Nat) (line : String) :
    (dropChars n line).toList = line.toList.drop n := by
  simp [dropChars]

theorem dropChars_zero (line : String) : dropChars 0 line = line := by
  simp [dropChars]

theorem delta_eq_nil_iff {lines : List String} {p : Position} {n : Nat} :
    delta lines p n = [] ↔ min n lines.length ≤ p.line - 1 := by
  have hnil : delta lines p n = [] ↔ (lines.take n).drop (p.line - 1) = [] := by
    unfold delta
    split <;> simp_all
  rw [hnil, List.drop_eq_nil_iff, List.length_take]

/-- The delta is the rest of one line, and the lines after it. -/
theorem delta_eq_cons {lines : List String} {i n : Nat} (hi : i < lines.length) (hn : i < n)
    (col : Nat) :
    delta lines ⟨i + 1, col⟩ n = dropChars col lines[i] :: (lines.take n).drop (i + 1) := by
  have hlen : i < (lines.take n).length := by
    rw [List.length_take]
    omega
  have h : (lines.take n).drop i = (lines.take n)[i] :: (lines.take n).drop (i + 1) :=
    List.drop_eq_getElem_cons hlen
  rw [delta, Nat.add_sub_cancel, h, List.getElem_take]

theorem delta_lineStart (lines : List String) (i n : Nat) :
    delta lines (Position.lineStart (i + 1)) n = (lines.take n).drop i := by
  rw [delta, Position.lineStart, Nat.add_sub_cancel]
  cases (lines.take n).drop i with
  | nil => rfl
  | cons line rest => exact congrArg (· :: rest) (dropChars_zero line)

theorem delta_append {lines : List String} {p : Position} {n : Nat} (hp : 1 ≤ p.line)
    (hpn : p.line ≤ n) (hn : n ≤ lines.length) (k : Nat) :
    delta lines p n ++ (lines.drop n).take k = delta lines p (n + k) := by
  obtain ⟨line, col⟩ := p
  simp only at hp hpn
  obtain ⟨i, rfl⟩ : ∃ i, line = i + 1 := ⟨line - 1, by omega⟩
  have htake : lines.take (n + k) = lines.take n ++ (lines.drop n).take k := List.take_add
  have hi : i < (lines.take n).length := by
    rw [List.length_take_of_le hn]
    omega
  rw [delta, delta, htake, Nat.add_sub_cancel, List.drop_append_of_le_length (Nat.le_of_lt hi),
    List.drop_eq_getElem_cons hi]
  rfl

/-- **Deltas laid end to end make up one delta.** The second one begins where the first one ended,
or the first one already went further. -/
theorem delta_append_delta {lines : List String} {p : Position} {m n : Nat} (hp : 1 ≤ p.line)
    (hpm : p.line ≤ m) (hm : m ≤ lines.length) :
    delta lines p m ++ delta lines (Position.lineStart (m + 1)) n = delta lines p (max m n) := by
  rw [delta_lineStart]
  rcases Nat.le_total n m with h | h
  · have hlen : (lines.take n).length ≤ m := by
      rw [List.length_take]
      omega
    rw [List.drop_eq_nil_of_le hlen, List.append_nil, Nat.max_eq_left h]
  · rw [List.drop_take, delta_append hp hpm hm, Nat.add_sub_cancel' h, Nat.max_eq_right h]

/-- The text of a delta is the rest of one line and the lines after it. -/
theorem chars_delta {lines : List String} {start : Position} {endLine : Nat}
    (hstart : 1 ≤ start.line) (hline : start.line ≤ endLine) (hend : endLine ≤ lines.length) :
    ∃ line, lines[start.line - 1]? = some line ∧
      chars (delta lines start endLine) =
        line.toList.drop start.col ++ '\n' :: chars ((lines.take endLine).drop start.line) := by
  obtain ⟨line, col⟩ := start
  simp only at hstart hline ⊢
  obtain ⟨i, rfl⟩ : ∃ i, line = i + 1 := ⟨line - 1, by omega⟩
  have hi : i < lines.length := by omega
  refine ⟨lines[i], List.getElem?_eq_getElem hi, ?_⟩
  rw [delta_eq_cons hi (by omega), chars_cons, toList_dropChars]

/-- **What the text before a place lacks is the delta from there.** -/
theorem append_chars_delta {lines : List String} (hlines : ∀ line ∈ lines, IsLine line)
    {front : List Char} (hf : front <+: chars lines) {n : Nat} (hn : n ≤ lines.length)
    (h : (place front).line ≤ n) :
    front ++ chars (delta lines (place front) n) = chars (lines.take n) := by
  obtain ⟨i, hi⟩ : ∃ i, (place front).line = i + 1 :=
    ⟨(place front).line - 1, by have := one_le_line_place front; omega⟩
  have hin : i < n := by omega
  have hp : place front = ⟨i + 1, (place front).col⟩ := Position.eq_iff.mpr ⟨hi, rfl⟩
  have hilen : i < lines.length := by omega
  have hsplit : lines.take n = lines.take (i + 1) ++ (lines.take n).drop (i + 1) := by
    have h' := List.take_append_drop (i + 1) (lines.take n)
    rw [List.take_take, Nat.min_eq_left (show i + 1 ≤ n by omega)] at h'
    exact h'.symm
  calc front ++ chars (delta lines (place front) n)
      = front ++ (lines[i].toList.drop (place front).col ++
          '\n' :: chars ((lines.take n).drop (i + 1))) := by
        rw [hp, delta_eq_cons hilen hin, chars_cons, toList_dropChars]
    _ = chars (lines.take i) ++ lines[i].toList.take (place front).col ++
          (lines[i].toList.drop (place front).col ++
            '\n' :: chars ((lines.take n).drop (i + 1))) :=
        congrArg (· ++ _) (eq_of_prefix_chars hlines hf hilen hi)
    _ = chars (lines.take (i + 1)) ++ chars ((lines.take n).drop (i + 1)) := by
        rw [chars_take_succ hilen, List.append_assoc, ← List.append_assoc (List.take _ _),
          List.take_append_drop]
        simp
    _ = chars (lines.take n) := by rw [← chars_append, ← hsplit]

end Sync

end EditorBridge
