import EditorBridge.Buffer
import EditorBridge.Proofs.Text.Terminated
import Mathlib.Data.List.InsertIdx
import Mathlib.Order.MinMax

/-!
# Edits of a buffer

Every edit either leaves the buffer alone or gives it new lines and logs a place
(`change_cases`). The text before that place is the same before and after the edit
(`Shares`), whatever the edit is.

The log answers with the earliest place: one more edit moves the answer of `changedSince` down to
its place if that is earlier (`changedSince_record`), and a checkpoint that has just been taken
knows of no edit (`changedSince_checkpoint`).
-/

namespace EditorBridge

open Text

inductive Change where
  | set (line : Nat) (text : String)
  | insert (line : Nat) (text : String)
  | remove (line : Nat)
  | push (text : String)

/-- The text that an edit brings in is one line. -/
def Change.IsPlain : Change → Prop
  | .set _ text | .insert _ text | .push text => IsLine text
  | .remove _ => True

/-- The two lists of lines have the same text before a place, which is a place of both. -/
def Shares (ls ms : List String) (p : Position) : Prop :=
  ∃ front, front <+: chars ls ∧ front <+: chars ms ∧ place front = p

namespace Buffer

def change (b : Buffer) : Change → Buffer
  | .set line text => b.setLine line text
  | .insert line text => b.insertLine line text
  | .remove line => b.removeLine line
  | .push text => b.pushLine text

def changes (b : Buffer) (cs : List Change) : Buffer := cs.foldl change b

/-- No line of the buffer holds a line feed. -/
def IsPlain (b : Buffer) : Prop := ∀ line ∈ b.lines, IsLine line

/-- No logged edit is later than the buffer's revision. -/
def IsDated (b : Buffer) : Prop := ∀ e ∈ b.edits, e.revision ≤ b.revision

/-! ## What an edit keeps -/

theorem take_commonLength (as bs : List Char) :
    as.take (commonLength as bs) = bs.take (commonLength as bs) := by
  induction as generalizing bs with
  | nil => simp [commonLength]
  | cons a as ih =>
    cases bs with
    | nil => simp [commonLength]
    | cons b bs =>
      by_cases h : a = b
      · simp [commonLength, h, ih]
      · simp [commonLength, h]

theorem commonLength_le (as bs : List Char) : commonLength as bs ≤ as.length := by
  induction as generalizing bs with
  | nil => simp [commonLength]
  | cons a as ih =>
    cases bs with
    | nil => simp [commonLength]
    | cons b bs =>
      by_cases h : a = b
      · simpa [commonLength, h] using ih bs
      · simp [commonLength, h]

/-- Lists of lines that agree up to line `i` share the text before line `i + 1`. -/
theorem shares_of_take_eq {ls ms : List String} {i : Nat} (hls : ∀ line ∈ ls, IsLine line)
    (hi : i ≤ ls.length) (h : ms.take i = ls.take i) : Shares ls ms (Position.lineStart (i + 1)) :=
  ⟨chars (ls.take i), prefix_chars_take ls i, h ▸ prefix_chars_take ms i, place_chars_take hls hi⟩

theorem shares_set {ls : List String} {i : Nat} (hls : ∀ line ∈ ls, IsLine line)
    (hi : i < ls.length) (text : String) :
    Shares ls (ls.set i text) ⟨i + 1, commonLength ls[i].toList text.toList⟩ := by
  refine ⟨chars (ls.take i) ++ ls[i].toList.take (commonLength ls[i].toList text.toList),
    ?_, ?_, ?_⟩
  · refine List.IsPrefix.trans ?_ (prefix_chars_take ls (i + 1))
    rw [chars_take_succ hi, List.prefix_append_right_inj]
    exact List.IsPrefix.trans (List.take_prefix _ _) (List.prefix_append _ _)
  · have hi' : i < (ls.set i text).length := by rwa [List.length_set]
    have hset : (ls.set i text).take i = ls.take i := List.take_set_of_le (Nat.le_refl i)
    refine List.IsPrefix.trans ?_ (prefix_chars_take (ls.set i text) (i + 1))
    rw [chars_take_succ hi', hset, List.prefix_append_right_inj, take_commonLength,
      List.getElem_set_self]
    exact List.IsPrefix.trans (List.take_prefix _ _) (List.prefix_append _ _)
  · have hplain : '\n' ∉ ls[i].toList.take (commonLength ls[i].toList text.toList) := fun hm =>
      hls _ (List.getElem_mem hi) (List.mem_of_mem_take hm)
    rw [place_chars_take_append hls (by omega) hplain,
      List.length_take_of_le (commonLength_le _ _)]

/-- **An edit leaves the buffer alone, or it logs a place before which the text stays the same.** -/
theorem change_cases (b : Buffer) (c : Change) :
    b.change c = b ∨ ∃ lines p, b.change c = b.record lines p ∧
      (b.IsPlain → Shares b.lines lines p) ∧
      (b.IsPlain → c.IsPlain → ∀ line ∈ lines, IsLine line) := by
  -- a push is an insertion too
  have hinsert : ∀ line text, ∃ lines p, b.insertLine line text = b.record lines p ∧
      (b.IsPlain → Shares b.lines lines p) ∧
      (b.IsPlain → IsLine text → ∀ line ∈ lines, IsLine line) := by
    intro line text
    refine ⟨_, _, rfl, fun hb => ?_, fun hb ht l hl => ?_⟩
    · exact shares_of_take_eq hb (Nat.min_le_right _ _)
        (List.take_insertIdx_eq_take_of_le _ _ _ _ (Nat.le_refl _))
    · rcases List.eq_or_mem_of_mem_insertIdx hl with rfl | hm
      · exact ht
      · exact hb l hm
  cases c with
  | set line text =>
    cases line with
    | zero => exact Or.inl rfl
    | succ i =>
      by_cases hi : i < b.lines.length
      · refine Or.inr ⟨b.lines.set i text, ⟨i + 1, commonLength b.lines[i].toList text.toList⟩,
          ?_, fun hb => shares_set hb hi text, fun hb ht l hl => ?_⟩
        · simp [change, setLine, hi]
        · rcases List.mem_or_eq_of_mem_set hl with hm | rfl
          · exact hb l hm
          · exact ht
      · exact Or.inl (by simp [change, setLine, Nat.le_of_not_lt hi])
  | insert line text => exact Or.inr (hinsert line text)
  | push text => exact Or.inr (hinsert _ text)
  | remove line =>
    by_cases h : line = 0 ∨ b.lineCount < line
    · exact Or.inl (if_pos h)
    · obtain ⟨hpos, hle⟩ := not_or.mp h
      refine Or.inr ⟨_, _, if_neg h, fun hb => ?_, fun hb _ l hl => ?_⟩
      · obtain ⟨i, rfl⟩ := Nat.exists_eq_succ_of_ne_zero hpos
        have hi : i < b.lines.length := Nat.not_lt.mp hle
        exact shares_of_take_eq hb (Nat.le_of_lt hi)
          (List.take_eraseIdx_eq_take_of_le _ _ _ (Nat.le_refl _))
      · exact hb l (List.mem_of_mem_eraseIdx hl)

@[simp] theorem id_change (b : Buffer) (c : Change) : (b.change c).id = b.id := by
  rcases change_cases b c with h | ⟨lines, p, h, -⟩
  · rw [h]
  · rw [h]; rfl

theorem IsPlain.change {b : Buffer} (hb : b.IsPlain) {c : Change} (hc : c.IsPlain) :
    (b.change c).IsPlain := by
  rcases change_cases b c with h | ⟨lines, p, h, -, hplain⟩ <;> rw [h]
  · exact hb
  · exact hplain hb hc

theorem IsDated.record {b : Buffer} (hb : b.IsDated) (lines : List String) (p : Position) :
    (b.record lines p).IsDated := by
  intro e he
  rcases List.mem_cons.mp he with rfl | he
  · exact Nat.le_refl _
  · exact Nat.le_succ_of_le (hb e he)

theorem IsDated.change {b : Buffer} (hb : b.IsDated) (c : Change) : (b.change c).IsDated := by
  rcases change_cases b c with h | ⟨lines, p, h, -⟩ <;> rw [h]
  · exact hb
  · exact hb.record lines p

theorem IsDated.changes {b : Buffer} (hb : b.IsDated) (cs : List Change) :
    (b.changes cs).IsDated := by
  induction cs generalizing b with
  | nil => exact hb
  | cons c cs ih => exact ih (hb.change c)

theorem isDated_ofLines (id : BufferId) (name : String) (lines : List String) :
    (ofLines id name lines).IsDated := fun _ h => absurd h List.not_mem_nil

/-! ## What the log answers -/

theorem changedSince_checkpoint {b : Buffer} (hb : b.IsDated) :
    b.changedSince b.checkpoint = none := by
  have h : b.edits.filter (b.checkpoint.revision < ·.revision) = [] := by
    rw [List.filter_eq_nil_iff]
    intro e he
    exact decide_eq_true_iff.not.mpr (Nat.not_lt.mpr (hb e he))
  rw [changedSince, h]
  exact if_pos rfl

/-- **One more edit can only make the answer of the log earlier.** -/
theorem changedSince_record {b : Buffer} {c : Checkpoint} (hid : c.buffer = b.id)
    (hrev : c.revision ≤ b.revision) (lines : List String) (p : Position) :
    (b.record lines p).changedSince c = some ((b.changedSince c).elim p (min p)) := by
  have hlt : c.revision < b.revision + 1 := Nat.lt_succ_of_le hrev
  have hid' : c.buffer = (b.record lines p).id := hid
  rw [changedSince, changedSince, if_pos hid, if_pos hid']
  simp only [record, List.filter_cons, hlt, decide_true, if_true, List.map_cons, List.min?_cons]

end Buffer

end EditorBridge
