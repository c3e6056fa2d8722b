import EditorBridge.Proofs.Sync.Feed
import EditorBridge.Sync.Tracker

/-!
# The course of a sync

What one sync sends, what it knows in the end, and what it answers, as far as that depends on the
answers it gets. The first commands are a seek, a reset or both (`Opening`), then the lines are
told (`Telling`), and last the cursor is moved (`Course`). `run_syncTo` is the one place where the
definition of a sync is opened: whatever is said about syncs is said about courses.
-/

namespace EditorBridge

open Text

/-- A tracker has a usable mark exactly if its mark is one of this buffer and of this process. -/
theorem Tracker.usableMark?_eq_some_iff {t : Tracker} {id : BufferId} {g : Nat} {m : Mark} :
    t.usableMark? id g = some m ↔
      t.mark = some m ∧ m.checkpoint.buffer = id ∧ m.generation = g := by
  rw [usableMark?, Option.filter_eq_some_iff]
  simp

theorem Command.name_seekBefore_ne (p : Position) : (Command.seekBefore p).name ≠ "tell" :=
  show "seek" ≠ "tell" by decide

theorem Command.name_seekExact_ne (p : Position) : (Command.seekExact p).name ≠ "tell" :=
  show "seek" ≠ "tell" by decide

theorem Command.name_reset_ne (name : Option String) : (Command.reset name).name ≠ "tell" := by
  cases name <;> exact show "reset" ≠ "tell" by decide

@[simp] theorem Command.label_reset_name (name : String) :
    (Command.reset (some name)).label = "reset name" := rfl

@[simp] theorem Command.label_seekBefore (p : Position) :
    (Command.seekBefore p).label = "seek before" := rfl

@[simp] theorem Command.label_seekExact (p : Position) :
    (Command.seekExact p).label = "seek exact" := rfl

theorem Command.label_tell (kind : TellKind) (lines : List String) :
    (Command.tell kind lines).label = "tell " ++ kind.name := rfl

namespace Entry

/-- What a sync makes of the answer: to a tell any payload will do, to other commands it has to be
a position. -/
def verdict (e : Entry) : Except BridgeError Unit :=
  if e.command.name = "tell" then e.satisfied.map fun _ => () else e.position.map fun _ => ()

/-- The command was answered by a `return` that a sync can use. -/
def IsUsable (e : Entry) : Prop := e.verdict = .ok ()

theorem verdict_of_tell {e : Entry} {kind : TellKind} {chunk : List String}
    (h : e.command = Command.tell kind chunk) : e.verdict = e.satisfied.map fun _ => () := by
  rw [verdict, h]
  exact if_pos rfl

theorem verdict_of_name {e : Entry} (h : e.command.name ≠ "tell") :
    e.verdict = e.position.map fun _ => () := if_neg h

theorem verdict_seekBefore {e : Entry} {p : Position} (h : e.command = Command.seekBefore p) :
    e.verdict = e.position.map fun _ => () :=
  verdict_of_name (h ▸ Command.name_seekBefore_ne p)

theorem verdict_seekExact {e : Entry} {p : Position} (h : e.command = Command.seekExact p) :
    e.verdict = e.position.map fun _ => () :=
  verdict_of_name (h ▸ Command.name_seekExact_ne p)

theorem verdict_reset {e : Entry} {name : Option String} (h : e.command = Command.reset name) :
    e.verdict = e.position.map fun _ => () :=
  verdict_of_name (h ▸ Command.name_reset_ne name)

end Entry

namespace Sync

/-- There was no mark to seek for, or the seek landed on the first line or in another process. -/
inductive Unplaced (b : Buffer) (t : Tracker) (g : Nat) : List Entry → Prop
  | unmarked : t.usableMark? b.id g = none → Unplaced b t g []
  | astray {m : Mark} {e : Entry} {p : Position} :
      t.usableMark? b.id g = some m → e.command = Command.seekBefore (m.resumePoint b) →
      e.position = .ok p → (e.after = m.generation → p.line ≤ 1) → Unplaced b t g [e]

/-- The first commands of a sync with a server of generation `g`, the tracker they leave, and
where the telling begins. -/
inductive Opening (b : Buffer) (t : Tracker) (g : Nat) :
    List Entry → Tracker → Except BridgeError (SyncMode × Position) → Prop
  /-- The seek failed. -/
  | lost {m : Mark} {e : Entry} {c : BridgeError} :
      t.usableMark? b.id g = some m → e.command = Command.seekBefore (m.resumePoint b) →
      e.position = .error c → Opening b t g [e] t (.error c)
  /-- The seek landed in the text. -/
  | landed {m : Mark} {e : Entry} {p : Position} :
      t.usableMark? b.id g = some m → e.command = Command.seekBefore (m.resumePoint b) →
      e.position = .ok p → e.after = m.generation → 1 < p.line →
      Opening b t g [e] t (.ok (.incremental, p))
  /-- The server was reset, which may have failed. -/
  | reset {es : List Entry} {e : Entry} :
      Unplaced b t g es → e.command = Command.reset (some b.basename) →
      Opening b t g (es ++ [e]) t.invalidate
        (e.position.map fun _ => (.full, Position.lineStart 1))

/-- The tells of a sync, and what comes of them. -/
inductive Telling (lines : List String) (start : Position) (endLine : Nat) :
    List Entry → Except BridgeError (Option FeedReport) → Prop
  | nothing : delta lines start endLine = [] → Telling lines start endLine [] (.ok none)
  | feed {init : List Entry} {last : Entry} :
      delta lines start endLine ≠ [] →
      Feed.IsFeed .struct (delta lines start endLine) (Feed.windows (lines.drop endLine))
        init last →
      Telling lines start endLine (init ++ [last]) (last.satisfied.map fun satisfied =>
        some ⟨endLine + Feed.more lines endLine init, init.length + 1,
          (delta lines start endLine).length + Feed.more lines endLine init, satisfied⟩)

def goal (b : Buffer) (target : Position) : Nat := min target.line b.lineCount

/-- The mark that a sync leaves. -/
def markOf (b : Buffer) (start : Position) (feed : Option FeedReport) (g : Nat) : Mark :=
  ⟨b.checkpoint, confirmed start feed, g⟩

/-- The commands of a sync that began with tracker `t` and a server of generation `g`, the tracker
it leaves, and its result. -/
inductive Course (b : Buffer) (target : Position) (t : Tracker) (g : Nat) :
    List Entry → Tracker → Except BridgeError SyncReport → Prop
  /-- It failed before anything was told. -/
  | unopened {es : List Entry} {t' : Tracker} {c : BridgeError} :
      Opening b t g es t' (.error c) → Course b target t g es t' (.error c)
  /-- It failed while the lines were told. -/
  | cut {es fs : List Entry} {t' : Tracker} {mode : SyncMode} {start : Position}
      {c : BridgeError} :
      Opening b t g es t' (.ok (mode, start)) →
      Telling b.lines start (goal b target) fs (.error c) →
      Course b target t g (es ++ fs) t' (.error c)
  /-- It failed when the cursor was moved. -/
  | unsought {es fs : List Entry} {t' : Tracker} {mode : SyncMode} {start : Position}
      {feed : Option FeedReport} {e : Entry} {c : BridgeError} :
      Opening b t g es t' (.ok (mode, start)) →
      Telling b.lines start (goal b target) fs (.ok feed) →
      e.command = Command.seekExact target → e.position = .error c →
      Course b target t g (es ++ fs ++ [e])
        ⟨some (markOf b start feed (generationAfter g (es ++ fs))), t.tracked⟩ (.error c)
  /-- It came to its end. -/
  | done {es fs : List Entry} {t' : Tracker} {mode : SyncMode} {start : Position}
      {feed : Option FeedReport} {e : Entry} {p : Position} :
      Opening b t g es t' (.ok (mode, start)) →
      Telling b.lines start (goal b target) fs (.ok feed) →
      e.command = Command.seekExact target → e.position = .ok p →
      Course b target t g (es ++ fs ++ [e])
        ⟨some (markOf b start feed (generationAfter g (es ++ fs))), some b.id⟩
        (.ok ⟨mode, feed, t.isSwitch b.id, p⟩)

/-- **What the tells of a sync told,** if none of them failed. -/
theorem Telling.told {lines : List String} {start : Position} {endLine : Nat} {es : List Entry}
    {feed : Option FeedReport} (h : Telling lines start endLine es (.ok feed))
    (hstart : 1 ≤ start.line) (hend : endLine ≤ lines.length) :
    es = [] ∧ endLine < start.line ∧ feed = none ∨
      es ≠ [] ∧ start.line ≤ endLine ∧ ∃ report, feed = some report ∧
        endLine ≤ report.endLine ∧ report.endLine ≤ lines.length ∧
        told es = chars (delta lines start report.endLine) := by
  generalize hr : (Except.ok feed : Except BridgeError _) = r at h
  cases h with
  | nothing hnil =>
    rw [delta_eq_nil_iff] at hnil
    exact Or.inl ⟨rfl, by omega, Except.ok.inj hr⟩
  | @feed init last hne hfeed =>
    have hline : start.line ≤ endLine := by
      rw [Ne, delta_eq_nil_iff] at hne
      omega
    cases hs : last.satisfied with
    | error c =>
      rw [hs] at hr
      cases hr
    | ok satisfied =>
      rw [hs] at hr
      exact Or.inr ⟨by simp, hline, _, Except.ok.inj hr, Nat.le_add_right _ _,
        Feed.add_more_le hend init, Feed.told_feed_delta hstart hline hend hfeed⟩

/-- A sync has stored a mark: it told all it had to, and went on to move the cursor. -/
inductive Stored (b : Buffer) (target : Position) (t : Tracker) (g : Nat) :
    List Entry → Mark → Prop
  | intro {es fs : List Entry} {t' : Tracker} {mode : SyncMode} {start : Position}
      {feed : Option FeedReport} {e : Entry} :
      Opening b t g es t' (.ok (mode, start)) →
      Telling b.lines start (goal b target) fs (.ok feed) →
      e.command = Command.seekExact target →
      Stored b target t g (es ++ fs ++ [e]) (markOf b start feed (generationAfter g (es ++ fs)))

theorem Opening.mark_of_mark {b : Buffer} {t t' : Tracker} {g : Nat} {es : List Entry}
    {r : Except BridgeError (SyncMode × Position)} (h : Opening b t g es t' r) {m : Mark}
    (hm : t'.mark = some m) : t.mark = some m := by
  cases h with
  | lost => exact hm
  | landed => exact hm
  | reset => cases hm

/-- **The mark after a sync** is the one before it, or the sync has stored it. -/
theorem Course.kept_or_stored {b : Buffer} {target : Position} {t t' : Tracker} {g : Nat}
    {es : List Entry} {r : Except BridgeError SyncReport} (h : Course b target t g es t' r)
    {m : Mark} (hm : t'.mark = some m) : t.mark = some m ∨ Stored b target t g es m := by
  cases h with
  | unopened hopen => exact Or.inl (hopen.mark_of_mark hm)
  | cut hopen => exact Or.inl (hopen.mark_of_mark hm)
  | unsought hopen htelling he =>
    obtain rfl := Option.some.inj hm
    exact Or.inr (.intro hopen htelling he)
  | done hopen htelling he =>
    obtain rfl := Option.some.inj hm
    exact Or.inr (.intro hopen htelling he)

theorem Course.exists_stored {b : Buffer} {target : Position} {t t' : Tracker} {g : Nat}
    {es : List Entry} {report : SyncReport} (h : Course b target t g es t' (.ok report)) :
    ∃ m, t'.mark = some m ∧ Stored b target t g es m := by
  cases h with
  | done hopen htelling he => exact ⟨_, rfl, .intro hopen htelling he⟩

theorem Opening.exists_concat {b : Buffer} {t t' : Tracker} {g : Nat} {es : List Entry}
    {r : Except BridgeError (SyncMode × Position)} (h : Opening b t g es t' r) :
    ∃ astray base, es = astray ++ [base] ∧
      (∀ e ∈ astray, ∃ p, e.command = Command.seekBefore p) ∧
      ((astray = [] ∧ ∃ p, base.command = Command.seekBefore p) ∨
        base.command = Command.reset (some b.basename)) := by
  cases h with
  | lost _ he => exact ⟨[], _, rfl, fun e h => absurd h List.not_mem_nil, Or.inl ⟨rfl, _, he⟩⟩
  | landed _ he => exact ⟨[], _, rfl, fun e h => absurd h List.not_mem_nil, Or.inl ⟨rfl, _, he⟩⟩
  | reset hunplaced he =>
    refine ⟨_, _, rfl, fun e h => ?_, Or.inr he⟩
    cases hunplaced with
    | unmarked => exact absurd h List.not_mem_nil
    | astray _ hseek => exact ⟨_, List.mem_singleton.mp h ▸ hseek⟩

/-- No command is told before the tells of a sync. -/
theorem Opening.name_ne {b : Buffer} {t t' : Tracker} {g : Nat} {es : List Entry}
    {r : Except BridgeError (SyncMode × Position)} (h : Opening b t g es t' r) :
    ∀ e ∈ es, e.command.name ≠ "tell" := by
  obtain ⟨astray, base, rfl, hastray, hbase⟩ := h.exists_concat
  intro e he
  rcases List.mem_append.mp he with he | he
  · obtain ⟨p, hp⟩ := hastray e he
    exact hp ▸ Command.name_seekBefore_ne p
  · rw [List.mem_singleton.mp he]
    rcases hbase with ⟨-, p, hp⟩ | hp
    · exact hp ▸ Command.name_seekBefore_ne p
    · exact hp ▸ Command.name_reset_ne _

theorem told_eq_nil {es : List Entry} (h : ∀ e ∈ es, e.command.name ≠ "tell") : told es = [] := by
  rw [told, List.flatMap_eq_nil_iff]
  intro e he
  unfold Command.told
  split
  · exact absurd ‹e.command.name = "tell"› (h e he)
  · rfl

theorem Opening.exists_cons {b : Buffer} {t t' : Tracker} {g : Nat} {es : List Entry}
    {r : Except BridgeError (SyncMode × Position)} (h : Opening b t g es t' r) :
    ∃ e rest, es = e :: rest ∧ e.command.name ≠ "tell" := by
  have hname := h.name_ne
  obtain ⟨astray, base, rfl, -⟩ := h.exists_concat
  cases astray with
  | nil => exact ⟨base, [], rfl, hname base List.mem_cons_self⟩
  | cons e astray => exact ⟨e, astray ++ [base], rfl, hname e List.mem_cons_self⟩

theorem Course.exists_cons {b : Buffer} {target : Position} {t t' : Tracker} {g : Nat}
    {es : List Entry} {r : Except BridgeError SyncReport} (h : Course b target t g es t' r) :
    ∃ e rest, es = e :: rest ∧ e.command.name ≠ "tell" := by
  cases h with
  | unopened hopen => exact hopen.exists_cons
  | cut hopen =>
    obtain ⟨e, rest, rfl, he⟩ := hopen.exists_cons
    exact ⟨e, _, rfl, he⟩
  | unsought hopen =>
    obtain ⟨e, rest, rfl, he⟩ := hopen.exists_cons
    exact ⟨e, _, rfl, he⟩
  | done hopen =>
    obtain ⟨e, rest, rfl, he⟩ := hopen.exists_cons
    exact ⟨e, _, rfl, he⟩

theorem Telling.exists_tell {lines : List String} {start : Position} {endLine : Nat}
    {es : List Entry} {r : Except BridgeError (Option FeedReport)}
    (h : Telling lines start endLine es r) :
    ∀ e ∈ es, ∃ kind chunk, e.command = Command.tell kind chunk := by
  intro e he
  cases h with
  | nothing => exact absurd he List.not_mem_nil
  | feed _ hfeed =>
    have hmem := List.mem_map_of_mem (f := Entry.command) he
    rw [hfeed.commands] at hmem
    rcases List.mem_cons.mp hmem with h | h
    · exact ⟨_, _, h⟩
    · obtain ⟨chunk, -, h⟩ := List.mem_map.mp h
      exact ⟨_, _, h.symm⟩

/-- The labels of the commands that a sync may send. -/
def labels : List String := ["seek before", "reset name", "tell struct", "tell end", "seek exact"]

theorem Opening.label_mem {b : Buffer} {t t' : Tracker} {g : Nat} {es : List Entry}
    {r : Except BridgeError (SyncMode × Position)} (h : Opening b t g es t' r) :
    ∀ e ∈ es, e.command.label ∈ labels := by
  obtain ⟨astray, base, rfl, hastray, hbase⟩ := h.exists_concat
  intro e he
  rcases List.mem_append.mp he with he | he
  · obtain ⟨p, hp⟩ := hastray e he
    simp [hp, labels]
  · rw [List.mem_singleton.mp he]
    rcases hbase with ⟨-, p, hp⟩ | hp <;> simp [hp, labels]

theorem Telling.label_mem {lines : List String} {start : Position} {endLine : Nat}
    {es : List Entry} {r : Except BridgeError (Option FeedReport)}
    (h : Telling lines start endLine es r) : ∀ e ∈ es, e.command.label ∈ labels := by
  intro e he
  obtain ⟨kind, chunk, hcommand⟩ := h.exists_tell e he
  rw [hcommand, Command.label_tell]
  cases kind <;> decide

/-- **A sync sends only commands of its own.** -/
theorem Course.label_mem {b : Buffer} {target : Position} {t t' : Tracker} {g : Nat}
    {es : List Entry} {r : Except BridgeError SyncReport} (h : Course b target t g es t' r) :
    ∀ e ∈ es, e.command.label ∈ labels := by
  have hlast : ∀ {e : Entry}, e.command = Command.seekExact target → e.command.label ∈ labels :=
    fun he => by simp [he, labels]
  cases h with
  | unopened hopen => exact hopen.label_mem
  | cut hopen htelling => exact List.forall_mem_append.mpr ⟨hopen.label_mem, htelling.label_mem⟩
  | unsought hopen htelling he =>
    exact List.forall_mem_append.mpr
      ⟨List.forall_mem_append.mpr ⟨hopen.label_mem, htelling.label_mem⟩,
        List.forall_mem_singleton.mpr (hlast he)⟩
  | done hopen htelling he =>
    exact List.forall_mem_append.mpr
      ⟨List.forall_mem_append.mpr ⟨hopen.label_mem, htelling.label_mem⟩,
        List.forall_mem_singleton.mpr (hlast he)⟩

/-! ## Results -/

/-- The result is that of some commands: all of them were answered well, or the last of them is
the first that failed. -/
def Settles {α : Type} (es : List Entry) : Except BridgeError α → Prop
  | .ok _ => ∀ e ∈ es, e.IsUsable
  | .error c => ∃ init last, es = init ++ [last] ∧ (∀ e ∈ init, e.IsUsable) ∧
      last.verdict = .error c

theorem Settles.append {α β : Type} {es fs : List Entry} {a : α} {r : Except BridgeError β}
    (h : Settles es (.ok a : Except BridgeError α)) (g : Settles fs r) : Settles (es ++ fs) r := by
  cases r with
  | ok b =>
    intro e he
    rcases List.mem_append.mp he with he | he
    · exact h e he
    · exact g e he
  | error c =>
    obtain ⟨init, last, rfl, hinit, hlast⟩ := g
    refine ⟨es ++ init, last, (List.append_assoc _ _ _).symm, fun e he => ?_, hlast⟩
    rcases List.mem_append.mp he with he | he
    · exact h e he
    · exact hinit e he

/-- If every command was answered well, there is a result. -/
theorem Settles.exists_ok {α : Type} {es : List Entry} {r : Except BridgeError α}
    (h : Settles es r) (hes : ∀ e ∈ es, e.IsUsable) : ∃ a, r = .ok a := by
  cases r with
  | ok a => exact ⟨a, rfl⟩
  | error c =>
    obtain ⟨init, last, rfl, -, hlast⟩ := h
    have hok : last.verdict = .ok () := hes last List.mem_concat_self
    cases hlast.symm.trans hok

theorem settles_concat {α β : Type} {init : List Entry} {last : Entry} {f : α → β}
    {r : Except BridgeError α} (hinit : ∀ e ∈ init, e.IsUsable)
    (hlast : last.verdict = r.map fun _ => ()) : Settles (init ++ [last]) (r.map f) := by
  cases r with
  | error c => exact ⟨init, last, rfl, hinit, hlast⟩
  | ok a =>
    intro e he
    rcases List.mem_append.mp he with he | he
    · exact hinit e he
    · rw [List.mem_singleton.mp he]
      exact hlast

theorem Opening.settles {b : Buffer} {t t' : Tracker} {g : Nat} {es : List Entry}
    {r : Except BridgeError (SyncMode × Position)} (h : Opening b t g es t' r) :
    Settles es r := by
  cases h with
  | @lost m e c hm he hc =>
    refine ⟨[], e, rfl, fun _ h => absurd h List.not_mem_nil, ?_⟩
    rw [Entry.verdict_seekBefore he, hc]
    rfl
  | @landed m e p hm he hp =>
    intro e' he'
    rw [List.mem_singleton.mp he', Entry.IsUsable, Entry.verdict_seekBefore he, hp]
    rfl
  | @reset es e hes he =>
    refine settles_concat (fun e' he' => ?_) (Entry.verdict_reset he)
    cases hes with
    | unmarked => exact absurd he' List.not_mem_nil
    | astray hm hseek hp =>
      rw [List.mem_singleton.mp he', Entry.IsUsable, Entry.verdict_seekBefore hseek, hp]
      rfl

theorem Telling.verdict_eq {lines : List String} {start : Position} {endLine : Nat}
    {es : List Entry} {r : Except BridgeError (Option FeedReport)}
    (h : Telling lines start endLine es r) :
    ∀ e ∈ es, e.verdict = e.satisfied.map fun _ => () := by
  intro e he
  obtain ⟨kind, chunk, hcommand⟩ := h.exists_tell e he
  exact Entry.verdict_of_tell hcommand

theorem Telling.settles {lines : List String} {start : Position} {endLine : Nat}
    {es : List Entry} {r : Except BridgeError (Option FeedReport)}
    (h : Telling lines start endLine es r) : Settles es r := by
  have hverdict := h.verdict_eq
  cases h with
  | nothing => exact fun e he => absurd he List.not_mem_nil
  | @feed init last hne hfeed =>
    refine settles_concat (fun e he => ?_) (hverdict last (by simp))
    rw [Entry.IsUsable, hverdict e (List.mem_append_left _ he), hfeed.unsatisfied e he]
    rfl

/-- **The result of a sync is that of its commands:** every one of them was answered well, or the
last one is the first that failed. -/
theorem Course.settles {b : Buffer} {target : Position} {t t' : Tracker} {g : Nat}
    {es : List Entry} {r : Except BridgeError SyncReport} (h : Course b target t g es t' r) :
    Settles es r := by
  cases h with
  | unopened hopen => exact hopen.settles
  | cut hopen htelling => exact hopen.settles.append htelling.settles
  | @unsought es fs t' mode start feed e c hopen htelling he hc =>
    refine (hopen.settles.append htelling.settles).append (a := feed) ?_
    refine ⟨[], e, rfl, fun _ h => absurd h List.not_mem_nil, ?_⟩
    rw [Entry.verdict_seekExact he, hc]
    rfl
  | @done es fs t' mode start feed e p hopen htelling he hp =>
    refine (hopen.settles.append htelling.settles).append (a := feed) ?_
    intro e' he'
    rw [List.mem_singleton.mp he', Entry.IsUsable, Entry.verdict_seekExact he, hp]
    rfl

/-! ## What the stages do -/

variable {σ α β : Type} [Transport σ]

theorem run_onServer_request_bind (command : Command) (decode : Json → Option α)
    (f : α → Exchange (Tracked σ) β) (t : Tracked σ) :
    (onServer (request command decode) >>= f).run t =
      match (Transport.entry t.server command).reading decode with
      | .ok a => (f a).run { t with server := Transport.next t.server command }
      | .error c => (.error c, { t with server := Transport.next t.server command }) := by
  rw [Exchange.run_bind, onServer, Exchange.run_zoom, run_request]
  cases (Transport.entry t.server command).reading decode <;> rfl

theorem run_look_bind {τ : Type} (f : τ → α) (k : α → Exchange τ β) (t : τ) :
    (Exchange.look f >>= k).run t = (k (f t)).run t := rfl

theorem run_reset (name : Option String) (t : Tracked σ) :
    (reset name).run t =
      ((Transport.entry t.server (Command.reset name)).position,
        ⟨Transport.next t.server (Command.reset name), t.tracker.invalidate⟩) := by
  rw [reset, Exchange.run_bind, track, Exchange.run_change]
  simp only [onServer, Exchange.run_zoom, run_request]
  rfl

theorem run_land (b : Buffer) (t : Tracked σ) :
    (land b).run t =
      match t.tracker.usableMark? b.id (Transport.generation t.server) with
      | none => (.ok none, t)
      | some m =>
        let e := Transport.entry t.server (Command.seekBefore (m.resumePoint b))
        (e.position.map fun p => if e.after = m.generation ∧ 1 < p.line then some p else none,
          { t with server := Transport.next t.server e.command }) := by
  rw [land, run_look_bind]
  cases t.tracker.usableMark? b.id (Transport.generation t.server) with
  | none => rfl
  | some m =>
    simp only
    rw [run_onServer_request_bind]
    unfold Entry.position
    cases (Transport.entry t.server (Command.seekBefore (m.resumePoint b))).reading
      Position.ofJson? <;> rfl

theorem run_begin (b : Buffer) (t : Tracked σ) :
    (begin b).run t =
      match (land b).run t with
      | (.error c, t') => (.error c, t')
      | (.ok (some p), t') => (.ok (.incremental, p), t')
      | (.ok none, t') =>
        (((reset (some b.basename)).run t').1.map fun _ => (.full, Position.lineStart 1),
          ((reset (some b.basename)).run t').2) := by
  rw [begin, Exchange.run_bind]
  rcases (land b).run t with ⟨c | (_ | p), t'⟩
  · rfl
  · simp only
    rw [Exchange.run_bind]
    rcases (reset (some b.basename)).run t' with ⟨c | p, t''⟩ <;> rfl
  · rfl

/-- **A sync opens with a seek, a reset or both.** -/
theorem opening_begin (b : Buffer) (t : Tracked σ) :
    ∃ es t' r, Talk t.server es t'.server ∧
      Opening b t.tracker (Transport.generation t.server) es t'.tracker r ∧
      (begin b).run t = (r, t') := by
  -- there is a reset without a usable mark, and after a seek that has strayed
  have hreset : ∀ {es : List Entry} {s : σ}, Talk t.server es s →
      Unplaced b t.tracker (Transport.generation t.server) es →
      (land b).run t = (.ok none, { t with server := s }) →
      ∃ es t' r, Talk t.server es t'.server ∧
        Opening b t.tracker (Transport.generation t.server) es t'.tracker r ∧
        (begin b).run t = (r, t') := by
    intro es s htalk h hland
    refine ⟨_, ⟨Transport.next s (.reset (some b.basename)), t.tracker.invalidate⟩, _,
      htalk.append (Talk.single s (.reset (some b.basename))), .reset h rfl, ?_⟩
    rw [run_begin, hland]
    simp only [run_reset]
  have hland := run_land b t
  cases hm : t.tracker.usableMark? b.id (Transport.generation t.server) with
  | none =>
    rw [hm] at hland
    exact hreset (.nil _) (.unmarked hm) hland
  | some m =>
    have htalk := Talk.single t.server (.seekBefore (m.resumePoint b))
    rw [hm] at hland
    simp only at hland
    cases hp : (Transport.entry t.server (.seekBefore (m.resumePoint b))).position with
    | error c =>
      refine ⟨_, ⟨_, t.tracker⟩, _, htalk, .lost hm rfl hp, ?_⟩
      rw [run_begin, hland, hp]
      rfl
    | ok p =>
      rw [hp, Except.map] at hland
      by_cases h : (Transport.entry t.server (.seekBefore (m.resumePoint b))).after =
          m.generation ∧ 1 < p.line
      · refine ⟨_, ⟨_, t.tracker⟩, _, htalk, .landed hm rfl hp h.1 h.2, ?_⟩
        rw [run_begin, hland, if_pos h]
        rfl
      · rw [if_neg h] at hland
        exact hreset htalk (.astray hm rfl hp fun hg => by
          have := not_and.mp h hg
          omega) hland

/-- **A sync tells a delta,** if it is not empty. -/
theorem telling_tell (b : Buffer) (start : Position) {endLine : Nat}
    (hend : endLine ≤ b.lineCount) (t : Tracked σ) :
    ∃ es s r, Talk t.server es s ∧ Telling b.lines start endLine es r ∧
      (tell b start endLine).run t = (r, { t with server := s }) := by
  cases h : delta b.lines start endLine with
  | nil =>
    refine ⟨[], t.server, .ok none, .nil _, .nothing h, ?_⟩
    rw [tell, h]
    rfl
  | cons line rest =>
    have hne : delta b.lines start endLine ≠ [] := h ▸ List.cons_ne_nil line rest
    obtain ⟨init, last, s, htalk, hfeed, hrun⟩ := Feed.run_feedFrom .struct
      (delta b.lines start endLine) endLine 0 0 (Feed.windows (b.lines.drop endLine)) t.server
    refine ⟨_, s, _, htalk, .feed hne hfeed, ?_⟩
    have htell : tell b start endLine = onServer (do
        let report ← Feed.feed b.lines (delta b.lines start endLine) endLine
        pure (some report) : Exchange σ (Option FeedReport)) := by
      rw [tell, h]
    rw [htell, onServer, Exchange.run_zoom, Exchange.run_bind, Feed.feed,
      show min endLine b.lines.length = endLine from Nat.min_eq_left hend]
    simp only [hrun]
    rcases last.satisfied with c | satisfied
    · rfl
    · simp only [Nat.zero_add]
      rfl

theorem run_finish (b : Buffer) (target : Position) (t : Tracked σ) :
    (finish b target).run t =
      match (Transport.entry t.server (Command.seekExact target)).position with
      | .ok p => (.ok p, ⟨Transport.next t.server (Command.seekExact target),
          { t.tracker with tracked := some b.id }⟩)
      | .error c => (.error c,
          ⟨Transport.next t.server (Command.seekExact target), t.tracker⟩) := by
  rw [finish, run_onServer_request_bind]
  unfold Entry.position
  cases (Transport.entry t.server (Command.seekExact target)).reading Position.ofJson? <;> rfl

theorem Opening.tracked_eq {b : Buffer} {t t' : Tracker} {g : Nat} {es : List Entry}
    {r : Except BridgeError (SyncMode × Position)} (h : Opening b t g es t' r) :
    t'.tracked = t.tracked := by
  cases h <;> rfl

theorem run_syncTo_of_begin {b : Buffer} {t t₁ : Tracked σ} {mode : SyncMode}
    {start : Position} (h : (begin b).run t = (.ok (mode, start), t₁)) (target : Position) :
    (syncTo b target).run t =
      match (tell b start (goal b target)).run t₁ with
      | (.error c, t₂) => (.error c, t₂)
      | (.ok feed, t₂) =>
        match (finish b target).run { t₂ with tracker := { t₂.tracker with
          mark := some (markOf b start feed (Transport.generation t₂.server)) } } with
        | (.ok p, t₃) => (.ok ⟨mode, feed, t.tracker.isSwitch b.id, p⟩, t₃)
        | (.error c, t₃) => (.error c, t₃) := by
  rw [syncTo, run_look_bind, Exchange.run_bind, h]
  simp only
  rw [Exchange.run_bind, goal]
  rcases (tell b start (min target.line b.lineCount)).run t₁ with ⟨c | feed, t₂⟩
  · rfl
  · simp only
    rw [run_look_bind, Exchange.run_bind, track, Exchange.run_change]
    simp only
    rw [Exchange.run_bind, markOf]
    rcases (finish b target).run _ with ⟨c | p, t₃⟩ <;> rfl

/-- **Every sync takes one of the courses.** -/
theorem run_syncTo (b : Buffer) (target : Position) (t : Tracked σ) :
    ∃ es t' r, Talk t.server es t'.server ∧
      Course b target t.tracker (Transport.generation t.server) es t'.tracker r ∧
      (syncTo b target).run t = (r, t') := by
  obtain ⟨es, t₁, r, htalk, hopen, hbegin⟩ := opening_begin b t
  cases r with
  | error c =>
    refine ⟨es, t₁, .error c, htalk, .unopened hopen, ?_⟩
    rw [syncTo, run_look_bind, Exchange.run_bind, hbegin]
  | ok r =>
    obtain ⟨mode, start⟩ := r
    obtain ⟨fs, s, r, hfs, htelling, htell⟩ :=
      telling_tell b start (Nat.min_le_right target.line b.lineCount) t₁
    have hrun := run_syncTo_of_begin hbegin target
    have hgen : Transport.generation s =
        generationAfter (Transport.generation t.server) (es ++ fs) :=
      (htalk.append hfs).generation_eq
    rw [goal, htell] at hrun
    cases r with
    | error c => exact ⟨_, { t₁ with server := s }, _, htalk.append hfs, .cut hopen htelling, hrun⟩
    | ok feed =>
      have htalk' := (htalk.append hfs).append (Talk.single s (Command.seekExact target))
      simp only [run_finish, hgen] at hrun
      cases hp : (Transport.entry s (Command.seekExact target)).position with
      | error c =>
        rw [hp] at hrun
        refine ⟨_, _, _, htalk', ?_, hrun⟩
        have h := Course.unsought hopen htelling rfl hp
        rwa [← hopen.tracked_eq] at h
      | ok p =>
        rw [hp] at hrun
        exact ⟨_, _, _, htalk', .done hopen htelling rfl hp, hrun⟩

end Sync

end EditorBridge
