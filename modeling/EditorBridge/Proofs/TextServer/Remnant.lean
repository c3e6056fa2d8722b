import EditorBridge.Proofs.TextServer.Agreement

/-!
# What a full sync leaves over

After a sync to the last line that succeeded the server has all the text of the buffer, but perhaps
more. A tell cuts off what follows the cursor, and so does a reset. If the server lands behind the
last line, there is nothing to tell, and what it holds behind the buffer's text stays where it is:
lines that have been removed from the end of the buffer are still there. The main statement,
`remnant_of_syncAll`, says that this is the only way in which anything is left over.
-/

namespace EditorBridge

open Text

/-- A cursor behind the last line of a buffer has all its text before it. -/
theorem Stands.front_eq {b : Buffer} {start : Position} {p : TextProcess} (h : Stands b start p)
    (hb : b.IsPlain) (hstart : b.lineCount < start.line) : p.front = chars b.lines := by
  have hplace : Text.place (chars b.lines) ≤ Text.place p.front := by
    rw [place_chars hb, h.place, Position.le_iff]
    simp only [Buffer.lineCount] at hstart
    rcases Nat.lt_or_eq_of_le (Nat.succ_le_of_lt hstart) with hlt | heq
    · exact Or.inl hlt
    · exact Or.inr ⟨heq, Nat.zero_le _⟩
  exact h.front.eq_of_length_le (prefix_of_place_le (List.prefix_refl _) h.front hplace).length_le

namespace Sync

open Transport (next entry)
open TextServer

variable {b : Buffer} {t t' : Tracker} {s s' : TextServer} {es : List Entry}

/-- A sync that begins with a reset finds no text, and one that does not finds what there was. -/
theorem Opening.text_eq {mode : SyncMode} {start : Position} (htalk : Talk s es s')
    (h : Opening b t s.generation es t' (.ok (mode, start))) :
    mode = .full ∧ s'.process.text = [] ∨
      mode = .incremental ∧ s'.process.text = s.process.text := by
  generalize hr : (Except.ok (mode, start) : Except BridgeError _) = r at h
  cases h with
  | lost => cases hr
  | @landed m e p hm he hp hafter hline =>
    obtain ⟨rfl, rfl⟩ := Prod.mk.inj (Except.ok.inj hr)
    obtain ⟨hentry, rfl⟩ := htalk.of_single
    rw [he] at hentry ⊢
    have hsteady : (entry s (Command.seekBefore (m.resumePoint b))).after =
        (entry s (Command.seekBefore (m.resumePoint b))).before :=
      (hentry ▸ hafter).trans (Tracker.usableMark?_eq_some_iff.mp hm).2.2
    have htext := (process_seekBefore s (m.resumePoint b)).1
    rw [carrier_of_steady hsteady] at htext
    exact Or.inr ⟨rfl, htext⟩
  | @reset es e hunplaced he =>
    obtain ⟨s₁, -, hlast⟩ := htalk.of_append
    obtain ⟨hentry, rfl⟩ := hlast.of_single
    rw [he] at hentry ⊢
    rw [hentry] at hr
    cases hp : (entry s₁ (Command.reset (some b.basename))).position with
    | error c =>
      rw [hp] at hr
      cases hr
    | ok p =>
      rw [hp] at hr
      obtain ⟨rfl, -⟩ := Prod.mk.inj (Except.ok.inj hr)
      rw [process_of_reset hp]
      exact Or.inl ⟨rfl, rfl⟩

/-- Telling all that is left of a buffer cuts off what follows; if nothing is left, nothing is cut
off. -/
theorem Telling.text_cases {start : Position} {feed : Option FeedReport} (htalk : Talk s es s')
    (h : Telling b.lines start b.lineCount es (.ok feed)) (hb : b.IsPlain)
    (hstands : Stands b start s.process) (hsteady : ∀ e ∈ es, e.after = e.before) :
    feed ≠ none ∧ s'.process.text = chars b.lines ∨
      feed = none ∧ s'.process = s.process ∧ s.process.front = chars b.lines := by
  have hstart : 1 ≤ start.line := hstands.place ▸ one_le_line_place _
  rcases h.told hstart (Nat.le_refl _) with
    ⟨rfl, hlt, rfl⟩ | ⟨hne, hle, report, rfl, hgoal, hlen, htold⟩
  · exact Or.inr ⟨rfl, congrArg TextServer.process htalk.of_nil, hstands.front_eq hb hlt⟩
  · rcases process_of_tells htalk h.exists_tell h.exists_satisfied hsteady with ⟨hnil, -⟩ | hs'
    · exact absurd hnil hne
    · rw [htold, hstands.append_delta hb hlen (Nat.le_trans hle hgoal),
        List.take_of_length_le hgoal] at hs'
      left
      rw [hs', TextProcess.text, List.append_nil]
      exact ⟨Option.some_ne_none _, rfl⟩

/-- **What a sync of the whole buffer leaves over** behind the text of the buffer: nothing, if it
has reset the server or told it anything, and otherwise what was there before. -/
theorem Course.remnant {target : Position} {report : SyncReport} (htalk : Talk s es s')
    (h : Course b target t s.generation es t' (.ok report)) (hb : b.IsPlain)
    (htrusts : ∀ m, t.usableMark? b.id s.generation = some m → Trusts b m s.process)
    (hsteady : ∀ e ∈ es.tail, e.after = e.before) (htarget : b.lineCount ≤ target.line) :
    ∃ left, s'.process.text = chars b.lines ++ left ∧
      (left = [] ∨ s.process.text = chars b.lines ++ left) ∧
      (left = [] ↔ report.feed ≠ none ∨ report.mode = .full ∨
        s.process.text = chars b.lines) := by
  have hgoal : goal b target = b.lineCount := Nat.min_eq_right htarget
  cases h with
  | @done es fs t'' mode start feed e p hopen htelling he hp =>
    rw [hgoal] at htelling
    obtain ⟨s₂, hfront, hlast⟩ := htalk.of_append
    obtain ⟨s₁, hes, hfs⟩ := hfront.of_append
    obtain ⟨hentry, rfl⟩ := hlast.of_single
    obtain ⟨first, rest, rfl, -⟩ := hopen.exists_cons
    have hfs' : ∀ e ∈ fs, e.after = e.before := fun e' he' => hsteady e' (by simp [he'])
    have hend : e.after = e.before := hsteady e (by simp)
    rw [hentry, he] at hend
    have htext := (process_seekExact s₂ target).1
    rw [carrier_of_steady hend] at htext
    rw [he, htext]
    have hstands := hopen.stands hes htrusts
    rcases htelling.text_cases hfs hb hstands hfs' with ⟨hfeed, hs₂⟩ | ⟨rfl, hs₂, hwhole⟩
    · exact ⟨[], by rw [hs₂, List.append_nil], Or.inl rfl, iff_of_true rfl (Or.inl hfeed)⟩
    · rw [hs₂]
      rcases hopen.text_eq hes with ⟨rfl, hs₁⟩ | ⟨rfl, hs₁⟩
      · refine ⟨[], ?_, Or.inl rfl, iff_of_true rfl (Or.inr (Or.inl rfl))⟩
        rw [TextProcess.text, List.append_eq_nil_iff] at hs₁
        rw [TextProcess.text, hs₁.2, hwhole]
      · refine ⟨s₁.process.back, ?_, Or.inr ?_, ?_⟩
        · rw [TextProcess.text, hwhole]
        · rw [← hs₁, TextProcess.text, hwhole]
        · rw [← hs₁, TextProcess.text, hwhole]
          simp

end Sync

namespace World

/-- What a sync of a whole buffer answers, and the world after it. -/
def syncAll (w : World) (id : BufferId) (script : List Reaction) :
    Except BridgeError SyncReport × World :=
  w.operate script (Session.syncAll (w.desk.buffer id))

/-- A sync of a whole buffer is a sync to its last line. -/
theorem syncAll_eq (w : World) (id : BufferId) (script : List Reaction) :
    w.syncAll id script =
      w.sync id (Position.lineStart (max (w.desk.buffer id).lineCount 1)) script := rfl

/-- The server is trusted with what it has been told, as long as it is not replaced between two
commands of an event. -/
theorem sound_of_orderly (desk : Desk) (server : TextServer) {events : List Event}
    (h : ∀ e ∈ events, e.IsOrderly) : ((start desk server).after events).Sound :=
  sound_after (sound_start desk server) fun _ hfs =>
    unbroken_after desk server fun e he => h e (hfs.subset he)

/-- **After a full sync that succeeded no line of the buffer is missing,** and what the server holds
behind its text it has held there before. Nothing is left over exactly if the sync has told
something, or has reset the server, or found no more than the text of the buffer. -/
theorem remnant_of_syncAll (desk : Desk) (server : TextServer) {events : List Event}
    (hevents : ∀ e ∈ events, e.IsOrderly) (id : BufferId) {script : List Reaction}
    (hscript : ∀ r ∈ script.tail, r.replaced = false) {w w' : World}
    (hw : w = (start desk server).after events) {report : SyncReport}
    (hsync : w.syncAll id script = (.ok report, w')) :
    ∃ left, w'.server.process.text = (w'.desk.buffer id).text.toList ++ left ∧
      (left = [] ∨ w.server.process.text = (w'.desk.buffer id).text.toList ++ left) ∧
      (left = [] ↔ report.feed ≠ none ∨ report.mode = .full ∨
        w.server.process.text = (w'.desk.buffer id).text.toList) := by
  have hsound : w.Sound := hw ▸ sound_of_orderly desk server hevents
  rw [syncAll_eq] at hsync
  obtain ⟨hdesk, htalk, hcourse⟩ :=
    w.sync_course id (Position.lineStart (max (w.desk.buffer id).lineCount 1)) script
  rw [hsync] at hdesk htalk hcourse
  have hdesk : w'.desk = w.desk := hdesk
  rw [hdesk, Buffer.text, toList_terminated]
  have hremnant := Sync.Course.remnant htalk hcourse (w.desk.plain id) (hsound.usable id)
    (TextServer.steady_tail_of_script htalk hscript) (Nat.le_max_left _ _)
  exact hremnant

/-! The last line of a buffer is removed after a full sync. If the server lands inside the lines
that stay, the next full sync tells the rest of them; if it lands where the removed line began, the
sync tells nothing and answers well, and the line is still there. -/

/-- A buffer of three lines is synced, and then its last line is removed. -/
def lastRemoved : List Event :=
  [.sync 0 ⟨3, 0⟩ [.accept (Position.lineStart 1).toJson 0, .accept (.bool true) 0,
    .accept (Position.lineStart 3).toJson 6],
    .edit 0 (.remove 3) trivial]

def afterLastRemoved : World :=
  (start (.uniform "lib/a.ml" ["ab", "cd", "ef"] (show ∀ line ∈ ["ab", "cd", "ef"],
    '\n' ∉ line.toList by decide)) ⟨1, .fresh, []⟩).after lastRemoved

/-- The server lands after the first three characters. -/
def landsInside : List Reaction :=
  [.accept (Position.lineStart 1).toJson 3, .accept (.bool true) 0,
    .accept (Position.lineStart 2).toJson 3]

/-- The server lands after the first six characters. -/
def landsBehind : List Reaction :=
  [.accept (Position.lineStart 1).toJson 6, .accept (Position.lineStart 2).toJson 3]

theorem no_remnant_landsInside :
    (afterLastRemoved.syncAll 0 landsInside).2.server.process.text = "ab\ncd\n".toList := by
  have hsync : (afterLastRemoved.syncAll 0 landsInside).1 =
      .ok ⟨.incremental, some ⟨2, 1, 1, true⟩, false, ⟨2, 0⟩⟩ :=
    eq_ok_of_toOption (by decide +kernel)
  have hevents : ∀ e ∈ lastRemoved, e.IsOrderly := by
    simp [lastRemoved, Event.IsOrderly, Event.script, Reaction.accept]
  have hscript : ∀ r ∈ landsInside.tail, r.replaced = false := by
    simp [landsInside, Reaction.accept]
  obtain ⟨left, htext, -, hnone⟩ :=
    remnant_of_syncAll _ _ hevents 0 hscript (w := afterLastRemoved) rfl (Prod.ext hsync rfl)
  obtain rfl : left = [] := hnone.mpr (Or.inl (Option.some_ne_none _))
  rw [htext, List.append_nil]
  decide +kernel

/-- A full sync that answers well, of which every command was answered well by one process, and the
removed line is left over. -/
theorem remnant_landsBehind :
    (afterLastRemoved.syncAll 0 landsBehind).1 =
        .ok ⟨.incremental, none, false, ⟨2, 0⟩⟩ ∧
      (∀ e ∈ (afterLastRemoved.syncAll 0 landsBehind).2.history, e.after = e.before) ∧
      ((afterLastRemoved.syncAll 0 landsBehind).2.desk.buffer 0).text.toList =
        "ab\ncd\n".toList ∧
      (afterLastRemoved.syncAll 0 landsBehind).2.server.process.text = "ab\ncd\nef\n".toList :=
  ⟨eq_ok_of_toOption (by decide +kernel), by decide +kernel, by decide +kernel,
    by decide +kernel⟩

end World

end EditorBridge
