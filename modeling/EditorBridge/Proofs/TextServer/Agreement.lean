import EditorBridge.Proofs.TextServer.World

/-!
# A sync that succeeds leaves the server in step

If the server process is replaced at most before the first command of an operation, then after
every sync that succeeds the server holds the text of the buffer up to the place that the mark
confirms, whatever edits, syncs, resets and failures came before (`text_after_sync`).
-/

namespace EditorBridge

open Text

/-- What the server is going to do during an event. -/
def Event.script : Event → List Reaction
  | .edit .. => []
  | .sync _ _ script => script
  | .reset _ script => script
  | .loadProject _ _ _ script => script

/-- The process is not replaced between two commands of the event. -/
def Event.IsOrderly (e : Event) : Prop := ∀ r ∈ e.script.tail, r.replaced = false

namespace World

/-- Orderly events keep a world unbroken: the first command of a sync is no tell. -/
theorem Unbroken.step {w : World} (h : w.Unbroken) {e : Event} (he : e.IsOrderly) :
    (w.step e).Unbroken := by
  refine h.step_of_sync ?_
  rintro id target script rfl m - - e hmem htell
  obtain ⟨-, htalk, hcourse⟩ := w.sync_course id target script
  have hsteady := TextServer.steady_tail_of_script htalk he
  obtain ⟨first, rest, heq, hfirst⟩ := hcourse.exists_cons
  have hmem : e ∈ first :: rest := heq ▸ hmem
  rw [heq] at hsteady
  rcases List.mem_cons.mp hmem with rfl | hmem
  · exact absurd htell hfirst
  · exact hsteady e hmem

theorem unbroken_after (desk : Desk) (server : TextServer) {events : List Event}
    (h : ∀ e ∈ events, e.IsOrderly) : ((start desk server).after events).Unbroken := by
  induction events using List.reverseRecOn with
  | nil => exact fun _ hm => nomatch hm
  | append_singleton events e ih =>
    rw [after_concat]
    exact Unbroken.step (ih fun e he => h e (List.mem_append_left _ he)) (h e (by simp))

/-- One process carries the last command of a talk if only the first one may meet a new one. -/
theorem generation_of_stored {b : Buffer} {target : Position} {t : Tracker} {s s' : TextServer}
    {es : List Entry} {m : Mark} (htalk : Talk s es s')
    (h : Sync.Stored b target t s.generation es m)
    (hsteady : ∀ e ∈ es.tail, e.after = e.before) : m.generation = s'.generation := by
  cases h with
  | @intro es fs t' mode start feed e hopen =>
    obtain ⟨first, rest, rfl, -⟩ := hopen.exists_cons
    have hlast : e.after = e.before := hsteady e (by simp)
    obtain ⟨s₁, hes, he⟩ := htalk.of_append
    obtain ⟨hentry, rfl⟩ := he.of_single
    rw [hentry] at hlast
    exact hes.generation_eq.symm.trans hlast.symm

/-- **After a sync that succeeded, the server holds the text of the buffer** up to the place that
the mark confirms, which is past the target. Before it there may have been any edits, syncs,
resets and loads of projects, any of whose commands may have failed, and whose first commands may
have met a new process. -/
theorem text_after_sync (desk : Desk) (server : TextServer) {events : List Event}
    (hevents : ∀ e ∈ events, e.IsOrderly) (id : BufferId) (target : Position)
    {script : List Reaction} (hscript : (Event.sync id target script).IsOrderly) {w w' : World}
    (hw : w = (start desk server).after events) {report : SyncReport}
    (hsync : w.sync id target script = (.ok report, w')) :
    ∃ m, w'.tracker.mark = some m ∧
      m.checkpoint = (w'.desk.buffer id).checkpoint ∧ m.generation = w'.server.generation ∧
      min target.line (w'.desk.buffer id).lineCount < m.confirmed.line ∧
      upTo m.confirmed w'.server.process.text =
        upTo m.confirmed (w'.desk.buffer id).text.toList ∧
      place (upTo m.confirmed w'.server.process.text) = m.confirmed := by
  have hsound : w.Sound := by
    rw [hw]
    refine sound_after (sound_start desk server) fun fs hfs => ?_
    exact unbroken_after desk server fun e he => hevents e (hfs.subset he)
  obtain ⟨hdesk, htalk, hcourse⟩ := w.sync_course id target script
  rw [hsync] at hdesk htalk hcourse
  obtain ⟨m, hmark, hstored⟩ := hcourse.exists_stored
  have hsteady := TextServer.steady_tail_of_script htalk hscript
  have hg := generation_of_stored htalk hstored hsteady
  have hunbroken := Unbroken.step (unbroken_after desk server hevents) hscript
  rw [← hw, step, hsync] at hunbroken
  obtain ⟨hagrees, hgoal⟩ := hstored.agrees htalk (w.desk.plain id) (hsound.usable id) hg
    (hunbroken m hmark hg)
  obtain ⟨front, htext, hlines, hplace⟩ := hagrees.text
  have hdesk : w'.desk = w.desk := hdesk
  rw [hdesk, Buffer.text, toList_terminated]
  refine ⟨m, hmark, hstored.checkpoint_eq, hg, hgoal, ?_, ?_⟩
  · exact (upTo_eq_of_place htext hplace).trans (upTo_eq_of_place hlines hplace).symm
  · exact (congrArg place (upTo_eq_of_place htext hplace)).trans hplace

/-! An edit inside a line, after a sync that met a new process: the next sync lands inside the
line and tells the rest of it. -/

/-- A buffer of two lines is synced, and then one character of the second line is replaced. -/
def oneEdit : List Event :=
  [.sync 0 ⟨2, 0⟩ [.acceptAnew (Position.lineStart 1).toJson, .accept (.bool true) 0,
    .accept (Position.lineStart 2).toJson 3],
    .edit 0 (.set 2 "cx") (show '\n' ∉ "cx".toList by decide)]

def afterOneEdit : World :=
  (start (.uniform "lib/a.ml" ["ab", "cd"] (show ∀ line ∈ ["ab", "cd"], '\n' ∉ line.toList by
    decide)) ⟨3, ⟨some "b.ml", ['?'], []⟩, []⟩).after oneEdit

/-- The server lands after the first four characters. -/
def landing : List Reaction :=
  [.accept (Position.lineStart 1).toJson 4, .accept (.bool true) 0,
    .accept (Position.lineStart 2).toJson 3]

theorem text_after_oneEdit :
    ∃ m, (afterOneEdit.sync 0 ⟨2, 0⟩ landing).2.tracker.mark = some m ∧ 2 < m.confirmed.line ∧
      upTo m.confirmed (afterOneEdit.sync 0 ⟨2, 0⟩ landing).2.server.process.text =
        upTo m.confirmed "ab\ncx\n".toList := by
  have hsync : (afterOneEdit.sync 0 ⟨2, 0⟩ landing).1 =
      .ok ⟨.incremental, some ⟨2, 1, 1, true⟩, false, ⟨2, 0⟩⟩ :=
    eq_ok_of_toOption (by decide +kernel)
  have hevents : ∀ e ∈ oneEdit, e.IsOrderly := by
    simp [oneEdit, Event.IsOrderly, Event.script, Reaction.accept]
  have hscript : (Event.sync 0 ⟨2, 0⟩ landing).IsOrderly := by
    simp [Event.IsOrderly, Event.script, landing, Reaction.accept]
  obtain ⟨m, hm, -, -, hline, htext, -⟩ :=
    text_after_sync _ _ hevents 0 ⟨2, 0⟩ hscript rfl (Prod.ext hsync rfl)
  exact ⟨m, hm, hline, htext⟩

end World

end EditorBridge
