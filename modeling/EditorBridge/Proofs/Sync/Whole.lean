import EditorBridge.Proofs.Sync.Course

/-!
# The first sync of a whole buffer

If nothing is known about the server's copy, and the target is on the last line, then a sync that
does not fail sends the same commands whatever the server answers: a reset, one tell with all the
lines unless there are none, and a seek (`Course.whole`).
-/

namespace EditorBridge.Sync

open Text

/-- The tells that hand over some lines at once. -/
def tellsAll (lines : List String) : List Command :=
  if lines = [] then [] else [Command.tell .struct lines]

/-- Without a mark, a sync opens with a reset. -/
theorem Opening.of_unmarked {b : Buffer} {t t' : Tracker} {g : Nat} {es : List Entry}
    {r : Except BridgeError (SyncMode × Position)} (h : Opening b t g es t' r)
    (ht : t.mark = none) :
    es.map Entry.command = [Command.reset (some b.basename)] ∧
      ∀ mode start, r = .ok (mode, start) → mode = .full ∧ start = Position.lineStart 1 := by
  have hunusable : ∀ m, t.usableMark? b.id g ≠ some m := by
    intro m hm
    have hmark := (Tracker.usableMark?_eq_some_iff.mp hm).1
    rw [ht] at hmark
    cases hmark
  cases h with
  | lost hm => exact absurd hm (hunusable _)
  | landed hm => exact absurd hm (hunusable _)
  | @reset es e hes he =>
    cases hes with
    | astray hm => exact absurd hm (hunusable _)
    | unmarked =>
      refine ⟨congrArg (fun c => [c]) he, fun mode start hr => ?_⟩
      cases hp : e.position with
      | error c =>
        rw [hp] at hr
        cases hr
      | ok p =>
        rw [hp] at hr
        obtain ⟨rfl, rfl⟩ := Prod.mk.inj (Except.ok.inj hr)
        exact ⟨rfl, rfl⟩

/-- Without a mark, a sync sends a reset, tells and a seek, and nothing else. -/
theorem Course.command_cases {b : Buffer} {target : Position} {t t' : Tracker} {g : Nat}
    {es : List Entry} {r : Except BridgeError SyncReport} (h : Course b target t g es t' r)
    (ht : t.mark = none) :
    ∀ e ∈ es, e.command = Command.reset (some b.basename) ∨
      (∃ kind chunk, e.command = Command.tell kind chunk) ∨
      e.command = Command.seekExact target := by
  have hreset : ∀ {es t' r}, Opening b t g es t' r →
      ∀ e ∈ es, e.command = Command.reset (some b.basename) := by
    intro es t' r hopen e he
    have hmem := List.mem_map_of_mem (f := Entry.command) he
    rw [(hopen.of_unmarked ht).1] at hmem
    exact List.mem_singleton.mp hmem
  have htells : ∀ {es fs t' r start r'}, Opening b t g es t' r →
      Telling b.lines start (goal b target) fs r' →
      ∀ e ∈ es ++ fs, e.command = Command.reset (some b.basename) ∨
        ∃ kind chunk, e.command = Command.tell kind chunk := by
    intro es fs t' r start r' hopen htelling e he
    rcases List.mem_append.mp he with he | he
    · exact Or.inl (hreset hopen e he)
    · exact Or.inr (htelling.exists_tell e he)
  have hseek : ∀ {es fs t' r start r' last}, Opening b t g es t' r →
      Telling b.lines start (goal b target) fs r' → last.command = Command.seekExact target →
      ∀ e ∈ es ++ fs ++ [last], e.command = Command.reset (some b.basename) ∨
        (∃ kind chunk, e.command = Command.tell kind chunk) ∨
        e.command = Command.seekExact target := by
    intro es fs t' r start r' last hopen htelling hlast e he
    rcases List.mem_append.mp he with he | he
    · exact or_assoc.mp (Or.inl (htells hopen htelling e he))
    · rw [List.mem_singleton.mp he]
      exact Or.inr (Or.inr hlast)
  intro e he
  cases h with
  | unopened hopen => exact Or.inl (hreset hopen e he)
  | cut hopen htelling => exact or_assoc.mp (Or.inl (htells hopen htelling e he))
  | unsought hopen htelling hlast => exact hseek hopen htelling hlast e he
  | done hopen htelling hlast => exact hseek hopen htelling hlast e he

/-- From the first line to the last one, all the lines are told at once. -/
theorem Telling.whole {lines : List String} {es : List Entry} {feed : Option FeedReport}
    (h : Telling lines (Position.lineStart 1) lines.length es (.ok feed)) :
    es.map Entry.command = tellsAll lines ∧ feed.elim 0 FeedReport.linesSent = lines.length := by
  have hdelta : delta lines (Position.lineStart 1) lines.length = lines := by
    rw [delta_lineStart, List.take_length, List.drop_zero]
  generalize hr : (Except.ok feed : Except BridgeError _) = r at h
  cases h with
  | nothing hnil =>
    obtain rfl := Except.ok.inj hr
    rw [hdelta] at hnil
    subst hnil
    exact ⟨rfl, rfl⟩
  | @feed init last hne hfeed =>
    have hrest : Feed.windows (lines.drop lines.length) = [] := by
      rw [List.drop_length, Feed.windows]
    rw [hdelta] at hne
    rw [hdelta, hrest] at hfeed
    have hcommands := hfeed.commands
    rw [List.take_nil, List.map_nil] at hcommands
    refine ⟨hcommands.trans (if_neg hne).symm, ?_⟩
    cases hs : last.satisfied with
    | error c =>
      rw [hs] at hr
      cases hr
    | ok satisfied =>
      rw [hs, hdelta] at hr
      obtain rfl := Except.ok.inj hr
      have hmore : Feed.more lines lines.length init = 0 := by
        rw [Feed.more, hrest, List.take_nil]
        rfl
      show lines.length + Feed.more lines lines.length init = lines.length
      rw [hmore, Nat.add_zero]

/-- **What a sync of a whole buffer sends,** if nothing is known about the server's copy. -/
theorem Course.whole {b : Buffer} {t t' : Tracker} {g : Nat} {es : List Entry}
    {report : SyncReport}
    (h : Course b (Position.lineStart (max b.lineCount 1)) t g es t' (.ok report))
    (ht : t.mark = none) :
    es.map Entry.command = Command.reset (some b.basename) :: tellsAll b.lines ++
        [Command.seekExact (Position.lineStart (max b.lineCount 1))] ∧
      report.mode = .full ∧ report.linesSent = b.lineCount := by
  cases h with
  | done hopen htelling he hp =>
    obtain ⟨hreset, hstart⟩ := hopen.of_unmarked ht
    obtain ⟨rfl, rfl⟩ := hstart _ _ rfl
    have hgoal : goal b (Position.lineStart (max b.lineCount 1)) = b.lines.length :=
      Nat.min_eq_right (Nat.le_max_left _ _)
    rw [hgoal] at htelling
    obtain ⟨htells, hsent⟩ := htelling.whole
    refine ⟨?_, rfl, hsent⟩
    rw [List.map_append, List.map_append, hreset, htells, List.map_singleton, he]
    rfl

end EditorBridge.Sync
