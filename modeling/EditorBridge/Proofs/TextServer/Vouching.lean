import EditorBridge.Proofs.TextServer.World

/-!
# What a mark vouches for

A mark with the number of the current process says that this process has received the buffer, from
the reset to the place that the mark confirms (`Vouched`). A process is empty when it starts, so
that what it holds is what it has received.

The number of a mark is read after the tells of the sync. If the process is replaced between the
seek or the reset and the last of the tells, the mark gets the number of a process that has
received the rest of the text only. The main statement, `vouched_iff_unbroken`, is that the marks of
a run vouch for their processes just as long as this does not happen.
-/

namespace EditorBridge

open Text

namespace TextServer

open Transport (next entry)

theorem name_tell (s : TextServer) (kind : TellKind) (chunk : List String) :
    (next s (Command.tell kind chunk)).process.name =
      (s.carrier (Command.tell kind chunk)).name := by
  rcases process_tell s kind chunk with h | h <;> rw [h]
  rfl

/-- Tells are carried by one process, or they end with a new one that has no name. -/
theorem tells_cases {s s' : TextServer} {es : List Entry} (h : Talk s es s')
    (htell : ∀ e ∈ es, ∃ kind chunk, e.command = Command.tell kind chunk) :
    (∀ e ∈ es, e.after = e.before) ∧ s'.process.name = s.process.name ∨
      s.generation < s'.generation ∧ s'.process.name = none := by
  induction h with
  | nil s => exact Or.inl ⟨fun e he => absurd he List.not_mem_nil, rfl⟩
  | @cons s s' command es h ih =>
    obtain ⟨kind, chunk, hcommand⟩ := htell _ List.mem_cons_self
    obtain rfl : command = Command.tell kind chunk := hcommand
    have hname := name_tell s kind chunk
    have hle := generation_le_next s (Command.tell kind chunk)
    have hrest := ih fun e he => htell e (List.mem_cons_of_mem _ he)
    -- a new process has no name, and the tells that follow give it none
    by_cases hhead : (entry s (Command.tell kind chunk)).after =
        (entry s (Command.tell kind chunk)).before
    · rw [carrier_of_steady hhead] at hname
      rcases hrest with ⟨hsteady, hs'⟩ | ⟨hlt, hs'⟩
      · exact Or.inl ⟨List.forall_mem_cons.mpr ⟨hhead, hsteady⟩, hs'.trans hname⟩
      · exact Or.inr ⟨Nat.lt_of_le_of_lt hle hlt, hs'⟩
    · right
      rw [carrier, if_neg hhead] at hname
      have hlt := Nat.lt_of_le_of_ne hle (Ne.symm hhead)
      refine ⟨Nat.lt_of_lt_of_le hlt (generation_le_of_talk h), ?_⟩
      rcases hrest with ⟨-, hs'⟩ | ⟨-, hs'⟩
      · exact hs'.trans hname
      · exact hs'

end TextServer

namespace Sync

open TextServer

variable {b : Buffer} {target : Position} {t : Tracker} {es : List Entry} {m : Mark}

/-- A sync that stores a mark of the process it ends with has met no new process while it was
telling, or this process has no name. -/
theorem Stored.tells_cases {s s' : TextServer} (htalk : Talk s es s')
    (h : Stored b target t s.generation es m) (hg : m.generation = s'.generation) :
    (∀ e ∈ es, e.command.name = "tell" → e.after = e.before) ∨
      s.generation < s'.generation ∧ s'.process.name = none := by
  cases h with
  | @intro es fs t' mode start feed e hopen htelling he =>
    obtain ⟨s₂, hfront, hlast⟩ := htalk.of_append
    obtain ⟨s₁, hes, hfs⟩ := hfront.of_append
    have hend := htalk.steady_of_generationAfter_eq hg
    obtain ⟨hentry, rfl⟩ := hlast.of_single
    rw [hentry, he] at hend
    have hname := (process_seekExact s₂ target).2
    rw [carrier_of_steady hend] at hname
    rcases TextServer.tells_cases hfs htelling.exists_tell with ⟨hsteady, -⟩ | ⟨hlt, hnone⟩
    · left
      intro e' he' htell
      rcases List.mem_append.mp he' with he' | he'
      · rcases List.mem_append.mp he' with he' | he'
        · exact absurd htell (hopen.name_ne e' he')
        · exact hsteady e' he'
      · rw [List.mem_singleton.mp he', he] at htell
        exact absurd htell (Command.name_seekExact_ne target)
    · right
      rw [he]
      refine ⟨?_, hname.trans hnone⟩
      exact Nat.lt_of_le_of_lt (generation_le_of_talk hes)
        (Nat.lt_of_lt_of_le hlt (generation_le_next s₂ _))

/-- A mark rests on the tells of its sync, and on the seek or the reset before them. -/
inductive RestsOn (b : Buffer) (target : Position) : List Entry → Entry → List Entry → Prop
  | intro {es tells : List Entry} {base last : Entry} :
      (es = [] ∧ ∃ p, base.command = Command.seekBefore p) ∨
        base.command = Command.reset (some b.basename) →
      (∀ e ∈ tells, ∃ kind chunk, e.command = Command.tell kind chunk) →
      last.command = Command.seekExact target →
      RestsOn b target (es ++ base :: tells ++ [last]) base tells

/-- **What a mark rests on was carried by the process of its number** if no tell has met a new
process, and only then. -/
theorem Stored.carried_iff {σ : Type} [Transport σ] {s s' : σ} (htalk : Talk s es s')
    (h : Stored b target t (Transport.generation s) es m) :
    ∃ base tells, RestsOn b target es base tells ∧
      ((∀ e ∈ base :: tells, e.after = m.generation) ↔ ∀ e ∈ tells, e.after = e.before) := by
  cases h with
  | @intro es fs t' mode start feed e hopen htelling he =>
    obtain ⟨s₂, hfront, -⟩ := htalk.of_append
    obtain ⟨s₁, hes, hfs⟩ := hfront.of_append
    have hgen : generationAfter (Transport.generation s) (es ++ fs) = Transport.generation s₂ :=
      hfront.generation_eq.symm
    obtain ⟨astray, base, rfl, -, hbase⟩ := hopen.exists_concat
    have hafter : base.after = Transport.generation s₁ := by
      rw [hes.generation_eq, generationAfter_concat]
    refine ⟨base, fs, ?_, ?_⟩
    · rw [show astray ++ [base] ++ fs = astray ++ base :: fs by simp]
      exact .intro hbase htelling.exists_tell he
    · rw [markOf, hgen, List.forall_mem_cons, hafter, hfs.after_eq_iff]
      exact and_iff_right rfl

end Sync

namespace World

open Sync (Stored RestsOn)

/-- A mark of the current process vouches for it: at some moment this process held the text of the
buffer as the checkpoint of the mark has it, up to the place that the mark confirms. -/
def Vouched (w : World) (events : List Event) : Prop :=
  ∀ m, (w.after events).tracker.mark = some m →
    m.generation = (w.after events).server.generation →
    ∃ fs, fs <+: events ∧ (w.after fs).server.generation = m.generation ∧
      m.checkpoint = ((w.after fs).desk.buffer m.checkpoint.buffer).checkpoint ∧
      Agrees ((w.after fs).desk.buffer m.checkpoint.buffer) m.confirmed
        (w.after fs).server.process

theorem generation_le_of_prefix (w : World) {fs events : List Event} (h : fs <+: events) :
    (w.after fs).server.generation ≤ (w.after events).server.generation := by
  induction events using List.reverseRecOn with
  | nil => rw [List.prefix_nil.mp h]
  | append_singleton events e ih =>
    rcases List.prefix_concat_iff.mp h with rfl | h
    · exact Nat.le_refl _
    · rw [after_concat]
      exact Nat.le_trans (ih h) (generation_le_step _ e)

/-- The mark after an event is the one before it, or a sync has stored it. -/
theorem mark_step {w : World} {e : Event} {m : Mark} (hm : (w.step e).tracker.mark = some m) :
    w.tracker.mark = some m ∨ ∃ id target script, e = .sync id target script ∧
      Stored (w.desk.buffer id) target w.tracker w.server.generation (w.step e).history m := by
  cases e with
  | edit => exact Or.inl hm
  | sync id target script =>
    rcases (w.sync_course id target script).2.2.kept_or_stored hm with hkept | hstored
    · exact Or.inl hkept
    · exact Or.inr ⟨id, target, script, rfl, hstored⟩
  | reset name script =>
    rw [(w.reset_talk name script).2] at hm
    cases hm
  | loadProject isFile dir depth script =>
    obtain ⟨-, hnone | ⟨htracker, -⟩⟩ := w.loadProject_talk isFile dir depth script
    · rw [hnone] at hm
      cases hm
    · exact Or.inl (htracker ▸ hm)

variable {w : World} {events : List Event} {e : Event}

/-- **A mark vouches after an event** if the world was sound and is unbroken. -/
theorem Vouched.concat (h : w.Vouched events) (hsound : (w.after events).Sound)
    (hu : (w.after (events ++ [e])).Unbroken) : w.Vouched (events ++ [e]) := by
  intro m hm hg
  have hunbroken := hu m hm hg
  rw [after_concat] at hm hg hunbroken
  rcases mark_step hm with hkept | ⟨id, target, script, rfl, hstored⟩
  · -- the process is the one of the moment before, where the mark vouched already
    have hle := generation_le_step (w.after events) e
    have hback := hsound.bound m hkept
    obtain ⟨fs, hfs, hmoment⟩ := h m hkept (Nat.le_antisymm hback (hg ▸ hle))
    exact ⟨fs, hfs.trans (List.prefix_append _ _), hmoment⟩
  · obtain ⟨hdesk, htalk, -⟩ := (w.after events).sync_course id target script
    have hdesk : ((w.after events).step (.sync id target script)).desk = (w.after events).desk :=
      hdesk
    obtain ⟨hagrees, -⟩ := hstored.agrees htalk ((w.after events).desk.plain id)
      (hsound.usable id) hg hunbroken
    have hcheckpoint := hstored.checkpoint_eq
    have hid : m.checkpoint.buffer = id := by
      rw [hcheckpoint]
      exact (w.after events).desk.id_eq id
    refine ⟨_, List.prefix_refl _, ?_⟩
    rw [after_concat, hdesk, hid]
    exact ⟨hg.symm, hcheckpoint, hagrees⟩

/-- **A world is unbroken after an event** if the mark vouches: else the last tells would have
ended with a process that has no name. -/
theorem Vouched.unbroken (h : w.Vouched (events ++ [e])) (hsound : (w.after events).Sound)
    (hu : (w.after events).Unbroken) : (w.after (events ++ [e])).Unbroken := by
  rw [after_concat]
  refine hu.step_of_sync ?_
  rintro id target script rfl m hm hg
  obtain ⟨-, htalk, hcourse⟩ := (w.after events).sync_course id target script
  rcases hcourse.kept_or_stored hm with hkept | hstored
  · intro e he _
    exact TextServer.steady_of_generation_le htalk (hg ▸ hsound.bound m hkept) e he
  · rcases hstored.tells_cases htalk hg with hsteady | ⟨hlt, hnone⟩
    · exact hsteady
    · obtain ⟨fs, hfs, hgen, -, hagrees⟩ := h m (by rwa [after_concat]) (by rwa [after_concat])
      -- now the process has no name, and at any moment before there was another process
      exfalso
      rcases List.prefix_concat_iff.mp hfs with rfl | hfs
      · have hname := hagrees.name
        rw [after_concat] at hname
        exact absurd (hname.symm.trans hnone) (Option.some_ne_none _)
      · have hle := w.generation_le_of_prefix hfs
        have hg : m.generation =
            ((w.after events).step (.sync id target script)).server.generation := hg
        have hlt : (w.after events).server.generation <
            ((w.after events).step (.sync id target script)).server.generation := hlt
        omega

theorem vouched_of_unbroken (desk : Desk) (server : TextServer)
    (h : ∀ fs, fs <+: events → ((start desk server).after fs).Unbroken) :
    (start desk server).Vouched events := by
  induction events using List.reverseRecOn with
  | nil => exact fun m hm => nomatch hm
  | append_singleton events e ih =>
    have hevents : ∀ fs, fs <+: events → ((start desk server).after fs).Unbroken :=
      fun fs hfs => h fs (hfs.trans (List.prefix_append _ _))
    exact (ih hevents).concat (sound_after (sound_start desk server) hevents)
      (h _ (List.prefix_refl _))

theorem unbroken_of_vouched (desk : Desk) (server : TextServer)
    (h : ∀ fs, fs <+: events → (start desk server).Vouched fs) :
    ∀ fs, fs <+: events → ((start desk server).after fs).Unbroken := by
  induction events using List.reverseRecOn with
  | nil =>
    intro fs hfs m hm
    rw [List.prefix_nil.mp hfs] at hm
    cases hm
  | append_singleton events e ih =>
    have hevents := ih fun fs hfs => h fs (hfs.trans (List.prefix_append _ _))
    intro fs hfs
    rcases List.prefix_concat_iff.mp hfs with rfl | hfs
    · exact (h _ (List.prefix_refl _)).unbroken
        (sound_after (sound_start desk server) hevents) (hevents _ (List.prefix_refl _))
    · exact hevents fs hfs

/-- **The marks of a run vouch for their processes** if no mark of the current process is stored
by a sync whose tells have met a new process, and only then. After a sync that succeeded, what the
mark rests on was carried by the process of its number under the same condition. -/
theorem vouched_iff_unbroken (desk : Desk) (g : Nat) (events : List Event) :
    ((∀ fs, fs <+: events → (start desk ⟨g, .fresh, []⟩).Vouched fs) ↔
        ∀ fs, fs <+: events → ((start desk ⟨g, .fresh, []⟩).after fs).Unbroken) ∧
      ∀ id target script report w',
        ((start desk ⟨g, .fresh, []⟩).after events).sync id target script = (.ok report, w') →
        ∃ m base tells, w'.tracker.mark = some m ∧
          RestsOn (w'.desk.buffer id) target w'.history base tells ∧
          ((∀ e ∈ base :: tells, e.after = m.generation) ↔ ∀ e ∈ tells, e.after = e.before) := by
  refine ⟨⟨unbroken_of_vouched desk _, fun h fs hfs => ?_⟩, ?_⟩
  · exact vouched_of_unbroken desk _ fun fs' hfs' => h fs' (hfs'.trans hfs)
  · intro id target script report w' hsync
    obtain ⟨hdesk, htalk, hcourse⟩ :=
      ((start desk ⟨g, .fresh, []⟩).after events).sync_course id target script
    rw [hsync] at hdesk htalk hcourse
    have hdesk : w'.desk = ((start desk ⟨g, .fresh, []⟩).after events).desk := hdesk
    obtain ⟨m, hmark, hstored⟩ := hcourse.exists_stored
    obtain ⟨base, tells, hrests, hcarried⟩ := hstored.carried_iff htalk
    exact ⟨m, base, tells, hmark, hdesk ▸ hrests, hcarried⟩

/-! A process that is replaced between the reset and the tell: the mark has its number, and it has
never got the name of the buffer. -/

/-- A sync whose reset is taken by one process, and whose tell by the next. -/
def replacedInSync : Event :=
  .sync 0 ⟨2, 0⟩ [.accept (Position.lineStart 1).toJson 0, .acceptAnew (.bool true),
    .accept (Position.lineStart 2).toJson 3]

theorem not_vouched_replacedInSync :
    ¬ (start (.uniform "lib/a.ml" ["ab", "cd"] (show ∀ line ∈ ["ab", "cd"], '\n' ∉ line.toList by
      decide)) ⟨1, .fresh, []⟩).Vouched [replacedInSync] := by
  intro h
  obtain ⟨fs, hfs, hg, -, hagrees⟩ := h ⟨⟨0, 0⟩, ⟨3, 0⟩, 2⟩ (by decide +kernel) (by decide +kernel)
  rcases List.prefix_cons_iff.mp hfs with rfl | ⟨rest, rfl, hrest⟩
  · exact absurd hg (by decide)
  · rw [List.prefix_nil.mp hrest] at hagrees
    exact absurd hagrees.name (by decide +kernel)

end World

end EditorBridge
