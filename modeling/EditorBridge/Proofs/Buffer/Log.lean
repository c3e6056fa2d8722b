import EditorBridge.Proofs.Buffer.Change

/-!
# What the log of a buffer says

The log is asked for the earliest place edited since a checkpoint. The places in it were noted at
different times, when the lines had other numbers, and yet the least of them is right for the buffer
as it is now: an edit at a place leaves the text before it alone, so that two edits leave the text
before the earlier of the two places alone (`Shares.trans`), whichever came first. One edit keeps
what the log says of an earlier time true (`Recalls.change`), and so do all edits since
(`Recalls.changes`).

The main statement is `changedSince_sound`.
-/

namespace EditorBridge

open Text

/-- **Lines that share the text before two places one after the other** share it before the earlier
one. -/
theorem Shares.trans {ls ms ns : List String} {p q : Position} (h : Shares ls ms p)
    (g : Shares ms ns q) : Shares ls ns (min q p) := by
  obtain ⟨front, hls, hms, rfl⟩ := h
  obtain ⟨front', hms', hns, rfl⟩ := g
  rcases le_total (place front) (place front') with hle | hle
  · rw [min_eq_right hle]
    exact ⟨front, hls, (prefix_of_place_le hms hms' hle).trans hns, rfl⟩
  · rw [min_eq_left hle]
    exact ⟨front', (prefix_of_place_le hms' hms hle).trans hls, hns, rfl⟩

namespace Buffer

/-- The text before a place: the lines before it, and as many characters of its own line as its
column says. -/
def textBefore (b : Buffer) (p : Position) : List Char :=
  chars (b.lines.take (p.line - 1)) ++
    (b.lines[p.line - 1]?).elim [] fun line => line.toList.take p.col

/-- Where the text of a buffer ends: behind its last line. -/
def endPlace (b : Buffer) : Position := Position.lineStart (b.lineCount + 1)

theorem place_lines {b : Buffer} (hb : b.IsPlain) : place (chars b.lines) = b.endPlace :=
  place_chars hb

/-- **A beginning of the text is the text before the place where it ends.** -/
theorem textBefore_place {b : Buffer} (hb : b.IsPlain) {front : List Char}
    (h : front <+: chars b.lines) : b.textBefore (place front) = front := by
  obtain ⟨i, hline⟩ := Nat.exists_eq_add_of_le' (one_le_line_place front)
  by_cases hi : i < b.lines.length
  · have hfront := eq_of_prefix_chars hb h hi hline
    rw [textBefore, hline, Nat.add_sub_cancel, List.getElem?_eq_getElem hi, Option.elim_some]
    exact hfront.symm
  · have hlength : b.lines.length ≤ i := Nat.not_lt.mp hi
    have hall : chars b.lines <+: front := by
      refine prefix_of_place_le (List.prefix_refl _) h ?_
      rw [place_chars hb, Position.le_iff, hline]
      simp only
      omega
    rw [textBefore, hline, Nat.add_sub_cancel, List.getElem?_eq_none hlength,
      List.take_of_length_le hlength, Option.elim_none, List.append_nil]
    exact hall.eq_of_length_le h.length_le

/-! ## What the log recalls -/

/-- What the log says of the time since a checkpoint is true: the lines were `old` then, and if
they have been edited since, the text before the place that the log answers is the same. -/
structure Recalls (b : Buffer) (c : Checkpoint) (old : List String) : Prop where
  buffer : c.buffer = b.id
  revision : c.revision ≤ b.revision
  kept : b.changedSince c = none → b.lines = old
  shared : ∀ p, b.changedSince c = some p → Shares old b.lines p

theorem recalls_checkpoint {b : Buffer} (hb : b.IsDated) : b.Recalls b.checkpoint b.lines where
  buffer := rfl
  revision := Nat.le_refl _
  kept := fun _ => rfl
  shared := by
    intro p hp
    rw [changedSince_checkpoint hb] at hp
    cases hp

/-- **One more edit** leaves what the log recalls true. -/
theorem Recalls.change {b : Buffer} {c : Checkpoint} {old : List String} (h : b.Recalls c old)
    (hb : b.IsPlain) (x : Change) : (b.change x).Recalls c old := by
  rcases change_cases b x with heq | ⟨lines, q, heq, hshares, -⟩ <;> rw [heq]
  · exact h
  have hnow := changedSince_record h.buffer h.revision lines q
  refine ⟨h.buffer, Nat.le_succ_of_le h.revision, fun hnone => ?_, fun p hp => ?_⟩
  · rw [hnow] at hnone
    cases hnone
  · rw [hnow] at hp
    obtain rfl := Option.some.inj hp
    cases hbefore : b.changedSince c with
    | none =>
      -- the first edit since the checkpoint
      rw [← h.kept hbefore]
      exact hshares hb
    | some p => exact (h.shared p hbefore).trans (hshares hb)

theorem IsPlain.changes {b : Buffer} (hb : b.IsPlain) {xs : List Change}
    (hxs : ∀ x ∈ xs, x.IsPlain) : (b.changes xs).IsPlain := by
  induction xs generalizing b with
  | nil => exact hb
  | cons x xs ih =>
    obtain ⟨hx, hxs⟩ := List.forall_mem_cons.mp hxs
    exact ih (hb.change hx) hxs

/-- **Any number of edits** leave what the log recalls true. -/
theorem Recalls.changes {b : Buffer} {c : Checkpoint} {old : List String} (h : b.Recalls c old)
    (hb : b.IsPlain) {xs : List Change} (hxs : ∀ x ∈ xs, x.IsPlain) :
    (b.changes xs).Recalls c old := by
  induction xs generalizing b with
  | nil => exact h
  | cons x xs ih =>
    obtain ⟨hx, hxs⟩ := List.forall_mem_cons.mp hxs
    exact ih (h.change hb x) (hb.change hx) hxs

/-- The place that the log answers is a place of the buffer, both as it is and as it was. -/
theorem Recalls.textBefore_eq {b old : Buffer} {c : Checkpoint} (h : b.Recalls c old.lines)
    (hb : b.IsPlain) (hold : old.IsPlain) {p : Position} (hp : b.changedSince c = some p) :
    p ≤ b.endPlace ∧ place (b.textBefore p) = p ∧ b.textBefore p = old.textBefore p := by
  obtain ⟨front, hthen, hnow, rfl⟩ := h.shared p hp
  have hbefore := textBefore_place hb hnow
  refine ⟨?_, congrArg place hbefore, hbefore.trans (textBefore_place hold hthen).symm⟩
  rw [← place_lines hb]
  obtain ⟨rest, heq⟩ := hnow
  rw [← heq, place_append]
  exact le_placeFrom _ rest

/-! ## Later checkpoints -/

theorem revision_le_change (b : Buffer) (x : Change) : b.revision ≤ (b.change x).revision := by
  rcases change_cases b x with h | ⟨lines, p, h, -⟩ <;> rw [h]
  exact Nat.le_succ _

theorem revision_le_changes (b : Buffer) (xs : List Change) :
    b.revision ≤ (b.changes xs).revision := by
  induction xs generalizing b with
  | nil => exact Nat.le_refl _
  | cons x xs ih => exact Nat.le_trans (revision_le_change b x) (ih _)

@[simp] theorem id_changes (b : Buffer) (xs : List Change) : (b.changes xs).id = b.id := by
  induction xs generalizing b with
  | nil => rfl
  | cons x xs ih => exact (ih (b.change x)).trans (id_change b x)

/-- **Since a later checkpoint no more has been edited:** whatever has been was edited since an
earlier one too, there or before. -/
theorem changedSince_mono {b : Buffer} {c c' : Checkpoint} (hid : c.buffer = b.id)
    (hid' : c'.buffer = b.id) (hrev : c.revision ≤ c'.revision) {q : Position}
    (h : b.changedSince c' = some q) : ∃ p, b.changedSince c = some p ∧ p ≤ q := by
  rw [changedSince, if_pos hid'] at h
  rw [changedSince, if_pos hid]
  obtain ⟨e, he, rfl⟩ := List.mem_map.mp (List.min?_mem h)
  rw [List.mem_filter, decide_eq_true_iff] at he
  have hmem : e.place ∈ (b.edits.filter (c.revision < ·.revision)).map Edit.place := by
    refine List.mem_map_of_mem (List.mem_filter.mpr ⟨he.1, decide_eq_true ?_⟩)
    exact Nat.lt_of_le_of_lt hrev he.2
  cases hmin : ((b.edits.filter (c.revision < ·.revision)).map Edit.place).min? with
  | none =>
    rw [List.min?_eq_none_iff.mp hmin] at hmem
    cases hmem
  | some p => exact ⟨p, rfl, (List.min?_eq_some_iff.mp hmin).2 _ hmem⟩

/-- **The log can be relied on.** Take a buffer `b` after any edits, the buffer `b'` after further
ones, and the buffer now. If the log says nothing since the checkpoint of `b`, the lines are those
of `b`. If it says a place, that is a place of the text there is now, and before it the text is that
of `b`. Since the checkpoint of `b'` it says nothing, or a place that is not before this one. -/
theorem changedSince_sound (id : BufferId) (name : String) {lines : List String}
    (hlines : ∀ line ∈ lines, IsLine line) {earlier between later : List Change}
    (hplain : ∀ x ∈ earlier ++ between ++ later, x.IsPlain) {b b' now : Buffer}
    (hb : b = (ofLines id name lines).changes earlier) (hb' : b' = b.changes between)
    (hnow : now = b'.changes later) :
    (now.changedSince b.checkpoint = none → now.lines = b.lines) ∧
      (∀ p, now.changedSince b.checkpoint = some p →
        p ≤ now.endPlace ∧ place (now.textBefore p) = p ∧ now.textBefore p = b.textBefore p) ∧
      ∀ q, now.changedSince b'.checkpoint = some q →
        ∃ p, now.changedSince b.checkpoint = some p ∧ p ≤ q := by
  simp only [List.forall_mem_append] at hplain
  obtain ⟨⟨hearlier, hbetween⟩, hlater⟩ := hplain
  have hstart : (ofLines id name lines).IsPlain := hlines
  have hplainb : b.IsPlain := hb ▸ hstart.changes hearlier
  have hplainb' : b'.IsPlain := hb' ▸ hplainb.changes hbetween
  have hplainnow : now.IsPlain := hnow ▸ hplainb'.changes hlater
  have hdated : b.IsDated := hb ▸ (isDated_ofLines id name lines).changes earlier
  have hrecalls : now.Recalls b.checkpoint b.lines := by
    have hrecalls' : b'.Recalls b.checkpoint b.lines :=
      hb' ▸ (recalls_checkpoint hdated).changes hplainb hbetween
    exact hnow ▸ hrecalls'.changes hplainb' hlater
  refine ⟨hrecalls.kept, fun p hp => hrecalls.textBefore_eq hplainnow hplainb hp, fun q hq => ?_⟩
  have hid : b'.checkpoint.buffer = now.id := by rw [hnow, id_changes, checkpoint]
  have hrev : b.checkpoint.revision ≤ b'.checkpoint.revision :=
    hb' ▸ revision_le_changes b between
  exact changedSince_mono hrecalls.buffer hid hrev hq

/-- Two checkpoints of a buffer, one before a line is inserted near its beginning and one before
its last line is changed and the line above that removed. -/
theorem changedSince_sound_shifted :
    let b := (ofLines 1 "lib/a.ml" ["a", "b", "c", "d"]).changes [.set 1 "z"]
    let b' := b.changes [.insert 2 "new"]
    let now := b'.changes [.set 5 "dd", .remove 4]
    now.changedSince b.checkpoint = some ⟨2, 0⟩ ∧ now.changedSince b'.checkpoint = some ⟨4, 0⟩ ∧
      now.lines = ["z", "new", "b", "dd"] ∧ now.textBefore ⟨2, 0⟩ = b.textBefore ⟨2, 0⟩ := by
  intro b b' now
  have hlines : ∀ line ∈ ["a", "b", "c", "d"], IsLine line :=
    show ∀ line ∈ ["a", "b", "c", "d"], '\n' ∉ line.toList by decide
  have hplain : ∀ x ∈ [Change.set 1 "z"] ++ [.insert 2 "new"] ++ [.set 5 "dd", .remove 4],
      x.IsPlain := by
    simp [Change.IsPlain, IsLine]
  have hsince : now.changedSince b.checkpoint = some ⟨2, 0⟩ := by decide +kernel
  obtain ⟨-, hshared, -⟩ := changedSince_sound 1 "lib/a.ml" hlines hplain rfl rfl rfl
  exact ⟨hsince, by decide +kernel, by decide +kernel, (hshared _ hsince).2.2⟩

end Buffer

end EditorBridge
