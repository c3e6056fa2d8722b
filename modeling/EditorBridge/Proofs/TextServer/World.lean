import EditorBridge.Proofs.Session.Run
import EditorBridge.Proofs.TextServer.Delivery

/-!
# Runs of an editor with a text server

An editor with any number of buffers, a session, and a server that holds a text: `World.step` is
what one event does, an edit or an operation of the session, and `World.after` is what some events
do from the start. What the server is going to do during an operation is the script of its event.

The main statement is `sound_after`: if a process is trusted with a buffer, it has the text that
the bridge believes it has, as long as no sync stores a mark for the process that it has met only
while it was telling (`Unbroken`).
-/

namespace EditorBridge

open Text

/-- A session that loads a project forgets its mark, or all it sends is the load. -/
theorem Session.loadProject_cases {σ : Type} [Transport σ] (isFile : Path → Bool) (dir : Path)
    (depth : Nat) (s : Session σ) :
    ∃ es, Talk s.server es ((loadProject isFile dir depth).run s).2.server ∧
      (((loadProject isFile dir depth).run s).2.tracker.mark = none ∨
        ((loadProject isFile dir depth).run s).2.tracker = s.tracker ∧
          ∀ e ∈ es, ∃ path, e.command = Command.loadProject path) := by
  rw [loadProject]
  rcases Project.search isFile dir depth with overflow | _ | path
  · exact ⟨[], .nil _, Or.inr ⟨rfl, fun e he => absurd he List.not_mem_nil⟩⟩
  · exact ⟨[], .nil _, Or.inr ⟨rfl, fun e he => absurd he List.not_mem_nil⟩⟩
  · have htalk := Talk.single s.server (Command.loadProject path.render)
    simp only
    rw [Exchange.run_bind, onServer, onTracked, Exchange.run_zoom, Sync.onServer,
      Exchange.run_zoom, execute, run_request]
    cases (Transport.entry s.server (Command.loadProject path.render)).reading
        fun _ => some () with
    | error c =>
      refine ⟨_, htalk, Or.inr ⟨rfl, fun e he => ⟨path.render, ?_⟩⟩⟩
      rw [List.mem_singleton.mp he]
      rfl
    | ok u =>
      have hreset := run_reset none ({ s with
        server := Transport.next s.server (Command.loadProject path.render) } : Session σ)
      simp only
      rw [Exchange.run_bind]
      rcases h : (reset none).run ({ s with
        server := Transport.next s.server (Command.loadProject path.render) } : Session σ) with
        ⟨c | p, s'⟩ <;> rw [h] at hreset <;> subst hreset <;>
        exact ⟨_, htalk.append (Talk.single _ (Command.reset none)), Or.inl rfl⟩

/-- The buffers of an editor, by their numbers. -/
structure Desk where
  buffer : BufferId → Buffer
  id_eq : ∀ id, (buffer id).id = id
  plain : ∀ id, (buffer id).IsPlain
  dated : ∀ id, (buffer id).IsDated

/-- A desk whose buffers all have the same name and lines, and have not been edited. -/
def Desk.uniform (name : String) (lines : List String) (h : ∀ line ∈ lines, IsLine line) :
    Desk where
  buffer id := .ofLines id name lines
  id_eq _ := rfl
  plain _ := h
  dated id := Buffer.isDated_ofLines id name lines

def Desk.edit (d : Desk) (id : BufferId) (c : Change) (hc : c.IsPlain) : Desk where
  buffer i := if i = id then (d.buffer id).change c else d.buffer i
  id_eq i := by
    split
    · rename_i h
      rw [Buffer.id_change, d.id_eq, h]
    · exact d.id_eq i
  plain i := by
    split
    · exact (d.plain id).change hc
    · exact d.plain i
  dated i := by
    split
    · exact (d.dated id).change c
    · exact d.dated i

/-- An editor, its session, and the server. -/
structure World where
  desk : Desk
  session : Session (Recorded TextServer)

/-- What may happen next. An operation comes with what the server is going to do. -/
inductive Event where
  | edit (id : BufferId) (change : Change) (plain : change.IsPlain)
  | sync (id : BufferId) (target : Position) (script : List Reaction)
  | reset (name : Option String) (script : List Reaction)
  | loadProject (isFile : Path → Bool) (dir : Path) (depth : Nat) (script : List Reaction)

namespace World

def server (w : World) : TextServer := w.session.server.inner

/-- What is known about the server's copy. -/
def tracker (w : World) : Tracker := w.session.tracker

/-- What the last operation has sent. -/
def history (w : World) : List Entry := w.session.server.history

def start (desk : Desk) (server : TextServer) : World :=
  ⟨desk, .ofServer (.ofTransport server)⟩

/-- The session as an operation finds it. -/
def ready (w : World) (script : List Reaction) : Session (Recorded TextServer) :=
  { w.session with server := .ofTransport { w.server with script := script } }

/-- What an operation answers, and the world after it. -/
def operate {α : Type} (w : World) (script : List Reaction)
    (x : Exchange (Session (Recorded TextServer)) α) : Except BridgeError α × World :=
  ((x.run (w.ready script)).1, { w with session := (x.run (w.ready script)).2 })

/-- What a sync of a buffer answers, and the world after it. -/
def sync (w : World) (id : BufferId) (target : Position) (script : List Reaction) :
    Except BridgeError SyncReport × World :=
  w.operate script (Session.syncTo (w.desk.buffer id) target)

def step (w : World) : Event → World
  | .edit id c hc => { w with desk := w.desk.edit id c hc }
  | .sync id target script => (w.sync id target script).2
  | .reset name script => (w.operate script (Session.reset name)).2
  | .loadProject isFile dir depth script =>
    (w.operate script (Session.loadProject isFile dir depth)).2

def after (w : World) (events : List Event) : World := events.foldl step w

@[simp] theorem after_nil (w : World) : w.after [] = w := rfl

@[simp] theorem after_concat (w : World) (events : List Event) (e : Event) :
    w.after (events ++ [e]) = (w.after events).step e := by
  simp [after]

/-! ## Operations -/

open Transport (next entry)

/-- A sync takes a course, and what the world remembers of it is its talk. -/
theorem sync_course (w : World) (id : BufferId) (target : Position) (script : List Reaction) :
    (w.sync id target script).2.desk = w.desk ∧
      Talk ({ w.server with script := script } : TextServer) (w.sync id target script).2.history
        (w.sync id target script).2.server ∧
      Sync.Course (w.desk.buffer id) target w.tracker w.server.generation
        (w.sync id target script).2.history (w.sync id target script).2.tracker
        (w.sync id target script).1 := by
  have hsync := Session.run_syncTo (w.desk.buffer id) target (w.ready script)
  obtain ⟨es, t', r, htalk, hcourse, hrun⟩ :=
    Sync.run_syncTo (w.desk.buffer id) target (w.ready script).toTracked
  rw [hrun] at hsync
  obtain rfl : (w.sync id target script).2.session.toTracked = t' :=
    congrArg (fun result => result.2.toTracked) hsync
  obtain rfl : (w.sync id target script).1 = r := congrArg Prod.fst hsync
  have hhistory : (w.sync id target script).2.history = es := htalk.history_eq
  rw [hhistory]
  exact ⟨rfl, htalk.recorded.2, hcourse⟩

theorem reset_talk (w : World) (name : Option String) (script : List Reaction) :
    (w.step (.reset name script)).server =
        next ({ w.server with script := script } : TextServer) (Command.reset name) ∧
      (w.step (.reset name script)).tracker.mark = none := by
  have hreset := Session.run_reset name (w.ready script)
  exact ⟨congrArg (fun s => s.server.inner) hreset, congrArg (fun s => s.tracker.mark) hreset⟩

/-- If a project is loaded, the mark is forgotten, or all that is sent is the load. -/
theorem loadProject_talk (w : World) (isFile : Path → Bool) (dir : Path) (depth : Nat)
    (script : List Reaction) :
    Talk ({ w.server with script := script } : TextServer)
        (w.step (.loadProject isFile dir depth script)).history
        (w.step (.loadProject isFile dir depth script)).server ∧
      ((w.step (.loadProject isFile dir depth script)).tracker.mark = none ∨
        (w.step (.loadProject isFile dir depth script)).tracker = w.tracker ∧
          ∀ e ∈ (w.step (.loadProject isFile dir depth script)).history,
            ∃ path, e.command = Command.loadProject path) := by
  obtain ⟨es, htalk, h⟩ := Session.loadProject_cases isFile dir depth (w.ready script)
  have hhistory : (w.step (.loadProject isFile dir depth script)).history = es :=
    htalk.history_eq
  rw [hhistory]
  exact ⟨htalk.recorded.2, h⟩

/-- No event takes the server back to an earlier process. -/
theorem generation_le_step (w : World) (e : Event) :
    w.server.generation ≤ (w.step e).server.generation := by
  cases e with
  | edit => exact Nat.le_refl _
  | sync id target script =>
    have hle := TextServer.generation_le_of_talk (w.sync_course id target script).2.1
    exact hle
  | reset name script =>
    rw [(w.reset_talk name script).1]
    exact TextServer.generation_le_next { w.server with script := script } _
  | loadProject isFile dir depth script =>
    have hle := TextServer.generation_le_of_talk (w.loadProject_talk isFile dir depth script).1
    exact hle

/-! ## What holds at every moment -/

/-- The mark of the current process is trusted, and no mark is of a process to come. -/
structure Sound (w : World) : Prop where
  bound : ∀ m, w.tracker.mark = some m → m.generation ≤ w.server.generation
  trusts : ∀ m, w.tracker.mark = some m → m.generation = w.server.generation →
    Trusts (w.desk.buffer m.checkpoint.buffer) m w.server.process

/-- If there is a mark of the current process, the last operation has met no new process while it
was telling. -/
def Unbroken (w : World) : Prop :=
  ∀ m, w.tracker.mark = some m → m.generation = w.server.generation →
    ∀ e ∈ w.history, e.command.name = "tell" → e.after = e.before

/-- Only a sync breaks a world. -/
theorem Unbroken.step_of_sync {w : World} (h : w.Unbroken) {e : Event}
    (hsync : ∀ id target script, e = .sync id target script → (w.step e).Unbroken) :
    (w.step e).Unbroken := by
  cases e with
  | edit => exact h
  | sync id target script => exact hsync id target script rfl
  | reset name script =>
    intro m hm
    rw [(w.reset_talk name script).2] at hm
    cases hm
  | loadProject isFile dir depth script =>
    intro m hm _ e hmem htell
    obtain ⟨-, hnone | ⟨-, hes⟩⟩ := w.loadProject_talk isFile dir depth script
    · rw [hnone] at hm
      cases hm
    · obtain ⟨path, hcommand⟩ := hes e hmem
      rw [hcommand] at htell
      exact absurd htell (show "project" ≠ "tell" by decide)

theorem sound_start (desk : Desk) (server : TextServer) : (start desk server).Sound where
  bound := fun _ h => nomatch h
  trusts := fun _ h => nomatch h

theorem Sound.edit {w : World} (h : w.Sound) (id : BufferId) (c : Change) (hc : c.IsPlain) :
    (w.step (.edit id c hc)).Sound := by
  refine ⟨h.bound, fun m hm hg => ?_⟩
  have htrusts := h.trusts m hm hg
  change Trusts (if m.checkpoint.buffer = id then (w.desk.buffer id).change c
    else w.desk.buffer m.checkpoint.buffer) m w.server.process
  split
  · rename_i hid
    rw [hid] at htrusts
    exact htrusts.change (w.desk.plain id) c
  · exact htrusts

theorem Sound.usable {w : World} (h : w.Sound) (id : BufferId) (m : Mark)
    (hm : w.tracker.usableMark? (w.desk.buffer id).id w.server.generation = some m) :
    Trusts (w.desk.buffer id) m w.server.process := by
  obtain ⟨hmark, hid, hg⟩ := Tracker.usableMark?_eq_some_iff.mp hm
  have htrusts := h.trusts m hmark hg
  rwa [hid, w.desk.id_eq] at htrusts

theorem Sound.sync {w : World} (h : w.Sound) (id : BufferId) (target : Position)
    (script : List Reaction) (hu : (w.step (.sync id target script)).Unbroken) :
    (w.step (.sync id target script)).Sound := by
  obtain ⟨hdesk, htalk, hcourse⟩ := w.sync_course id target script
  refine ⟨fun m hm => hcourse.generation_le htalk h.bound hm, fun m hm hg => ?_⟩
  have htrusts := hcourse.trusts htalk (w.desk.plain id) (w.desk.dated id) (h.usable id) h.bound hm
    hg (hu m hm hg)
  have hid : m.checkpoint.buffer = id := htrusts.buffer.trans (w.desk.id_eq id)
  change Trusts ((w.sync id target script).2.desk.buffer m.checkpoint.buffer) m
    (w.sync id target script).2.server.process
  rw [hdesk, hid]
  exact htrusts

theorem Sound.loadProject {w : World} (h : w.Sound) (isFile : Path → Bool) (dir : Path)
    (depth : Nat) (script : List Reaction) :
    (w.step (.loadProject isFile dir depth script)).Sound := by
  have hdesk : (w.step (.loadProject isFile dir depth script)).desk = w.desk := rfl
  obtain ⟨htalk, hnone | ⟨htracker, hes⟩⟩ := w.loadProject_talk isFile dir depth script
  · refine ⟨fun m hm => ?_, fun m hm => ?_⟩ <;> rw [hnone] at hm <;> cases hm
  · have hle := TextServer.generation_le_of_talk htalk
    -- the load failed, and the mark is still there
    refine ⟨fun m hm => ?_, fun m hm hg => ?_⟩ <;> rw [htracker] at hm
    · exact Nat.le_trans (h.bound m hm) hle
    · have hback := hg ▸ h.bound m hm
      have hprocess := TextServer.process_of_loadProjects htalk hes
        (TextServer.steady_of_generation_le htalk hback)
      rw [hdesk, hprocess]
      exact h.trusts m hm (hg.trans (Nat.le_antisymm hback hle))

/-- **One event keeps a world sound,** unless it stores a mark for a process that it has met while
it was telling. -/
theorem Sound.step {w : World} (h : w.Sound) (e : Event) (hu : (w.step e).Unbroken) :
    (w.step e).Sound := by
  cases e with
  | edit id c hc => exact h.edit id c hc
  | sync id target script => exact h.sync id target script hu
  | reset name script =>
    have hnone := (w.reset_talk name script).2
    refine ⟨fun m hm => ?_, fun m hm => ?_⟩ <;> rw [hnone] at hm <;> cases hm
  | loadProject isFile dir depth script => exact h.loadProject isFile dir depth script

/-- **A run stays sound** as long as every moment of it is unbroken. -/
theorem sound_after {w : World} (h : w.Sound) {events : List Event}
    (hu : ∀ fs, fs <+: events → (w.after fs).Unbroken) : (w.after events).Sound := by
  induction events using List.reverseRecOn with
  | nil => exact h
  | append_singleton events e ih =>
    rw [after_concat]
    refine Sound.step (ih fun fs hfs => hu fs (hfs.trans (List.prefix_append _ _))) e ?_
    rw [← after_concat]
    exact hu _ (List.prefix_refl _)

end World

end EditorBridge
