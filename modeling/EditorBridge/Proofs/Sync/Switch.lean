import EditorBridge.Proofs.Sync.Failure

/-!
# Switching buffers

What a run of syncs says about switches from one buffer to another. A report calls a sync a switch
if the last sync that succeeded was of another buffer (`lastSynced`). What the server holds is a
different matter: it holds the text of the buffer whose reset it acknowledged last (`lastGiven`),
and a sync that fails can have come that far.

The main statement is `switch_reported`. The first half does not depend on failures: a sync that
succeeds has reset the server by the name of its buffer if the server was given another one last.
The second half says when the report tells the same story: a switch has reset the server, unless
the buffer had been sent before by a sync of which only the last seek failed, and without a switch
the server held this buffer, unless a sync of another one has failed after its reset.
-/

namespace EditorBridge

open Text

namespace Sync

/-- A sync of a run: its buffer, its result, and what it sent, with the answers. -/
structure Turn where
  buffer : Buffer
  result : Except BridgeError SyncReport
  entries : List Entry

/-- The server has acknowledged a reset that names a buffer. -/
def acknowledges (e : Entry) : Bool :=
  e.command.label == "reset name" && e.position.toOption.isSome

namespace Turn

def succeeded (u : Turn) : Bool := u.result.toOption.isSome

/-- The server has acknowledged that it is given the buffer. -/
def gave (u : Turn) : Bool := u.entries.any acknowledges

/-- The sync has failed with the last of its commands. -/
def failedAtSeek (u : Turn) : Bool :=
  !u.succeeded && (u.entries.getLast?.map fun e => e.command.label) == some "seek exact"

end Turn

/-! Syncs stand in a list with the latest first. -/

/-- The buffer of the last sync that succeeded. -/
def lastSynced (turns : List Turn) : Option BufferId :=
  (turns.find? Turn.succeeded).map fun u => u.buffer.id

/-- The buffer that the server was given last. -/
def lastGiven (turns : List Turn) : Option BufferId :=
  (turns.find? Turn.gave).map fun u => u.buffer.id

/-- The syncs since the last one that succeeded. -/
def sinceSynced (turns : List Turn) : List Turn := turns.takeWhile fun u => !u.succeeded

/-- A server, what is known about its copy, and the syncs there have been, the latest first. -/
structure Run (σ : Type) where
  server : σ
  tracker : Tracker
  turns : List Turn

namespace Run

variable {σ : Type}

def start (server : σ) : Run σ := ⟨server, .initial, []⟩

variable [Transport σ]

/-- What a sync answers, and what it leaves. -/
def trySync (r : Run σ) (b : Buffer) (target : Position) :
    Except BridgeError SyncReport × Tracked (Recorded σ) :=
  (syncTo b target).run ⟨.ofTransport r.server, r.tracker⟩

def sync (r : Run σ) (b : Buffer) (target : Position) : Run σ :=
  ⟨(r.trySync b target).2.server.inner, (r.trySync b target).2.tracker,
    ⟨b, (r.trySync b target).1, (r.trySync b target).2.server.history⟩ :: r.turns⟩

def syncs (r : Run σ) (calls : List (Buffer × Position)) : Run σ :=
  calls.foldl (fun r call => r.sync call.1 call.2) r

end Run

/-! ## One sync of a run -/

/-- What a sync makes of the mark and the tracked buffer, and what it has sent and answered. -/
inductive Outturn (b : Buffer) (t : Tracker) : Turn → Tracker → Prop
  /-- It failed without a reset. -/
  | kept {u : Turn} {t' : Tracker} : u.succeeded = false → u.gave = false → t' = t →
      Outturn b t u t'
  /-- It failed after a reset, or with it. -/
  | dropped {u : Turn} {t' : Tracker} : u.succeeded = false → t' = t.invalidate → Outturn b t u t'
  /-- It failed with its last command. -/
  | unsought {u : Turn} {t' : Tracker} {m : Mark} : u.failedAtSeek = true →
      m.checkpoint.buffer = b.id → t' = ⟨some m, t.tracked⟩ →
      (u.gave = true ∨ u.gave = false ∧ ∃ m₀, t.mark = some m₀ ∧ m₀.checkpoint.buffer = b.id) →
      Outturn b t u t'
  | done {u : Turn} {t' : Tracker} {m : Mark} {report : SyncReport} : u.result = .ok report →
      report.switched = t.isSwitch b.id → m.checkpoint.buffer = b.id →
      t' = ⟨some m, some b.id⟩ →
      (u.gave = true ∧ HasReset b u.entries ∧ report.mode = .full ∨
        u.gave = false ∧ ∃ m₀, t.mark = some m₀ ∧ m₀.checkpoint.buffer = b.id) →
      Outturn b t u t'

variable {b : Buffer} {target : Position} {t t' : Tracker} {g : Nat} {es fs : List Entry}

theorem any_acknowledges_of_label (h : ∀ e ∈ es, e.command.label ≠ "reset name") :
    es.any acknowledges = false := by
  refine List.any_eq_false.mpr fun e he => ?_
  simp [acknowledges, h e he]

theorem label_ne_of_seekBefore {e : Entry} {p : Position}
    (he : e.command = Command.seekBefore p) : e.command.label ≠ "reset name" := by
  rw [he, Command.label_seekBefore]
  decide

theorem label_ne_of_isTell {e : Entry} (he : e.IsTell) : e.command.label ≠ "reset name" := by
  obtain ⟨kind, chunk, hcommand⟩ := he
  rw [hcommand, Command.label_tell]
  cases kind <;> decide

theorem Unplaced.any_acknowledges (h : Unplaced b t g es) : es.any acknowledges = false := by
  cases h with
  | unmarked => rfl
  | astray _ he =>
    refine any_acknowledges_of_label fun e' he' => ?_
    rw [List.mem_singleton.mp he']
    exact label_ne_of_seekBefore he

/-- An opening that fails leaves the tracker as it was, or it has tried a reset. -/
theorem Opening.cases_of_error {c : BridgeError} (h : Opening b t g es t' (.error c)) :
    es.any acknowledges = false ∧ t' = t ∨ t' = t.invalidate := by
  generalize hr : (Except.error c : Except BridgeError (SyncMode × Position)) = r at h
  cases h with
  | lost _ he =>
    refine Or.inl ⟨any_acknowledges_of_label fun e' he' => ?_, rfl⟩
    rw [List.mem_singleton.mp he']
    exact label_ne_of_seekBefore he
  | landed => cases hr
  | reset => exact Or.inr rfl

/-- An opening that succeeds has reset the server, or there was a mark of the buffer. -/
theorem Opening.cases_of_ok {mode : SyncMode} {start : Position}
    (h : Opening b t g es t' (.ok (mode, start))) :
    (es.any acknowledges = true ∧ HasReset b es ∧ mode = .full ∧ t' = t.invalidate) ∨
      es.any acknowledges = false ∧ (∃ m, t.mark = some m ∧ m.checkpoint.buffer = b.id) ∧
        t' = t := by
  generalize hr : (Except.ok (mode, start) : Except BridgeError _) = r at h
  cases h with
  | lost => cases hr
  | @landed m e p hm he =>
    obtain ⟨hmark, hbuffer, -⟩ := Tracker.usableMark?_eq_some_iff.mp hm
    refine Or.inr ⟨any_acknowledges_of_label fun e' he' => ?_, ⟨m, hmark, hbuffer⟩, rfl⟩
    rw [List.mem_singleton.mp he']
    exact label_ne_of_seekBefore he
  | @reset es e hes he =>
    cases hp : e.position with
    | error c =>
      rw [hp] at hr
      cases hr
    | ok p =>
      rw [hp] at hr
      obtain ⟨rfl, -⟩ := Prod.mk.inj (Except.ok.inj hr)
      refine Or.inl ⟨?_, ⟨e, by simp, he⟩, rfl, rfl⟩
      simp [acknowledges, he, hp, Except.toOption]

theorem Telling.any_acknowledges {lines : List String} {start : Position} {endLine : Nat}
    {r : Except BridgeError (Option FeedReport)} (h : Telling lines start endLine fs r) :
    fs.any acknowledges = false :=
  any_acknowledges_of_label fun e he => label_ne_of_isTell (h.exists_tell e he)

/-- **What becomes of a sync that takes a course.** -/
theorem Course.outturn {r : Except BridgeError SyncReport} (h : Course b target t g es t' r) :
    Outturn b t ⟨b, r, es⟩ t' := by
  cases h with
  | unopened hopen =>
    rcases hopen.cases_of_error with ⟨hgave, rfl⟩ | rfl
    · exact .kept rfl hgave rfl
    · exact .dropped rfl rfl
  | cut hopen htelling =>
    rcases hopen.cases_of_ok with ⟨-, -, -, rfl⟩ | ⟨hgave, -, rfl⟩
    · exact .dropped rfl rfl
    · exact .kept rfl (by simp [Turn.gave, hgave, htelling.any_acknowledges]) rfl
  | @unsought es fs t'' mode start feed e c hopen htelling he =>
    have hlast : acknowledges e = false := by simp [acknowledges, he]
    refine .unsought ?_ rfl rfl ?_
    · simp [Turn.failedAtSeek, Turn.succeeded, he, Except.toOption]
    · rcases hopen.cases_of_ok with ⟨hgave, -⟩ | ⟨hgave, hmark, -⟩
      · exact Or.inl (by simp [Turn.gave, hgave])
      · exact Or.inr ⟨by simp [Turn.gave, hgave, htelling.any_acknowledges, hlast], hmark⟩
  | @done es fs t'' mode start feed e p hopen htelling he =>
    have hlast : acknowledges e = false := by simp [acknowledges, he]
    refine .done rfl rfl rfl rfl ?_
    rcases hopen.cases_of_ok with ⟨hgave, hreset, hmode, -⟩ | ⟨hgave, hmark, -⟩
    · refine Or.inl ⟨by simp [Turn.gave, hgave], ?_, hmode⟩
      exact hasReset_append.mpr (Or.inl (hasReset_append.mpr (Or.inl hreset)))
    · exact Or.inr ⟨by simp [Turn.gave, hgave, htelling.any_acknowledges, hlast], hmark⟩

/-! ## Runs -/

theorem lastSynced_cons (u : Turn) (turns : List Turn) :
    lastSynced (u :: turns) = if u.succeeded then some u.buffer.id else lastSynced turns := by
  unfold lastSynced
  cases h : u.succeeded <;> simp [h]

theorem lastGiven_cons (u : Turn) (turns : List Turn) :
    lastGiven (u :: turns) = if u.gave then some u.buffer.id else lastGiven turns := by
  unfold lastGiven
  cases h : u.gave <;> simp [h]

theorem sinceSynced_cons (u : Turn) (turns : List Turn) :
    sinceSynced (u :: turns) = if u.succeeded then [] else u :: sinceSynced turns := by
  unfold sinceSynced
  cases h : u.succeeded <;> simp [h]

theorem Turn.succeeded_of_failedAtSeek {u : Turn} (h : u.failedAtSeek = true) :
    u.succeeded = false := by
  rw [failedAtSeek, Bool.and_eq_true] at h
  simpa using h.1

/-- What a tracker knows of the syncs there have been. -/
structure Accounts (t : Tracker) (turns : List Turn) : Prop where
  tracked : t.tracked = lastSynced turns
  /-- The mark is one of the buffer that the server was given last. -/
  given : ∀ m, t.mark = some m → lastGiven turns = some m.checkpoint.buffer
  /-- It is the tracked buffer, or one of which only the last seek of a sync has failed. -/
  marked : ∀ m, t.mark = some m → t.tracked = some m.checkpoint.buffer ∨
    ∃ u ∈ sinceSynced turns, u.buffer.id = m.checkpoint.buffer ∧ u.failedAtSeek = true
  /-- The server was given the tracked buffer last, unless a sync of another one failed after it
  had reset the server. -/
  held : ∀ id, lastSynced turns = some id → lastGiven turns = some id ∨
    ∃ u ∈ sinceSynced turns, u.buffer.id ≠ id ∧ u.gave = true

theorem accounts_nil : Accounts .initial [] where
  tracked := rfl
  given _ h := nomatch h
  marked _ h := nomatch h
  held _ h := nomatch h

namespace Accounts

variable {turns : List Turn} {u : Turn}

/-- A sync that fails does not change the tracked buffer. -/
theorem tracked_cons (h : Accounts t turns) (hu : u.succeeded = false) :
    t.tracked = lastSynced (u :: turns) := by
  rw [lastSynced_cons, hu]
  exact h.tracked

/-- After a sync that has failed the server still was given the tracked buffer last, or this sync
is one of those that have given it another one. -/
theorem held_cons (h : Accounts t turns) (hu : u.succeeded = false) :
    ∀ id, lastSynced (u :: turns) = some id → lastGiven (u :: turns) = some id ∨
      ∃ v ∈ sinceSynced (u :: turns), v.buffer.id ≠ id ∧ v.gave = true := by
  intro id hid
  rw [lastSynced_cons, hu] at hid
  rw [lastGiven_cons, sinceSynced_cons, hu]
  have hid : lastSynced turns = some id := hid
  cases hgave : u.gave with
  | true =>
    by_cases hu' : u.buffer.id = id
    · exact Or.inl (congrArg some hu')
    · exact Or.inr ⟨u, List.mem_cons_self, hu', hgave⟩
  | false =>
    rcases h.held id hid with hgiven | ⟨v, hv, hne, hgave'⟩
    · exact Or.inl hgiven
    · exact Or.inr ⟨v, List.mem_cons_of_mem u hv, hne, hgave'⟩

/-- The mark that a sync stores is one of the buffer that the server was given last: it was given
the buffer by this sync, or it had been before. -/
theorem given_cons (h : Accounts t turns) (hu : u.buffer = b)
    (hgiven : u.gave = true ∨
      u.gave = false ∧ ∃ m, t.mark = some m ∧ m.checkpoint.buffer = b.id) :
    lastGiven (u :: turns) = some b.id := by
  rw [lastGiven_cons]
  rcases hgiven with hgave | ⟨hgave, m, hm, hbuffer⟩
  · rw [hgave, hu]
    rfl
  · rw [hgave, ← hbuffer]
    exact h.given m hm

theorem outturn (h : Accounts t turns) (hu : u.buffer = b) (hturn : Outturn b t u t') :
    Accounts t' (u :: turns) := by
  cases hturn with
  | kept hfailed hgave ht =>
    subst ht
    refine ⟨h.tracked_cons hfailed, fun m hm => ?_, fun m hm => ?_, h.held_cons hfailed⟩
    · rw [lastGiven_cons, hgave]
      exact h.given m hm
    · rw [sinceSynced_cons, hfailed]
      rcases h.marked m hm with htracked | ⟨v, hv, hbuffer, hseek⟩
      · exact Or.inl htracked
      · exact Or.inr ⟨v, List.mem_cons_of_mem u hv, hbuffer, hseek⟩
  | dropped hfailed ht =>
    subst ht
    refine ⟨h.tracked_cons hfailed, fun m hm => ?_, fun m hm => ?_, h.held_cons hfailed⟩
    · cases hm
    · cases hm
  | @unsought m hseek hbuffer ht hgiven =>
    subst ht
    have hfailed := Turn.succeeded_of_failedAtSeek hseek
    refine ⟨h.tracked_cons hfailed, fun m' hm => ?_, fun m' hm => ?_, h.held_cons hfailed⟩
    · obtain rfl := Option.some.inj hm
      rw [hbuffer]
      exact h.given_cons hu hgiven
    · obtain rfl := Option.some.inj hm
      rw [sinceSynced_cons, hfailed]
      exact Or.inr ⟨u, List.mem_cons_self, by rw [hu, hbuffer], hseek⟩
  | @done m report hresult hswitched hbuffer ht hgiven =>
    subst ht
    have hok : u.succeeded = true := by rw [Turn.succeeded, hresult]; rfl
    have hlast : lastGiven (u :: turns) = some b.id := by
      refine h.given_cons hu ?_
      rcases hgiven with ⟨hgave, -⟩ | hmark
      · exact Or.inl hgave
      · exact Or.inr hmark
    have hsynced : lastSynced (u :: turns) = some b.id := by rw [lastSynced_cons, hok, hu]; rfl
    refine ⟨hsynced.symm, fun m' hm => ?_, fun m' hm => ?_, fun id hid => ?_⟩
    · obtain rfl := Option.some.inj hm
      rw [hlast, hbuffer]
    · obtain rfl := Option.some.inj hm
      exact Or.inl (congrArg some hbuffer.symm)
    · exact Or.inl (hlast.trans (hsynced.symm.trans hid))

end Accounts

variable {σ : Type} [Transport σ]

theorem Run.outturn_sync (r : Run σ) (b : Buffer) (target : Position) :
    Outturn b r.tracker
      ⟨b, (r.trySync b target).1, (r.trySync b target).2.server.history⟩
      (r.sync b target).tracker := by
  obtain ⟨es, t', result, htalk, hcourse, hrun⟩ :=
    run_syncTo b target (⟨.ofTransport r.server, r.tracker⟩ : Tracked (Recorded σ))
  have htry : r.trySync b target = (result, t') := hrun
  rw [Run.sync, htry, htalk.history_eq]
  exact hcourse.outturn

/-- **A tracker knows of all the syncs** there have been. -/
theorem accounts_syncs (s : σ) (calls : List (Buffer × Position)) :
    Accounts ((Run.start s).syncs calls).tracker ((Run.start s).syncs calls).turns := by
  induction calls using List.reverseRecOn with
  | nil => exact accounts_nil
  | append_singleton calls call ih =>
    rw [Run.syncs, List.foldl_append]
    exact ih.outturn rfl (Run.outturn_sync _ call.1 call.2)

/-- **What a report says about a switch.** A sync that succeeded is a switch exactly if the last
one before it that succeeded was of another buffer. Whatever it is, if the server was given another
buffer last, this sync has reset the server by the name of its own, and told it everything. A
switch has done so, unless a sync of the same buffer had come as far as its last command since.
Without a switch the server was given this buffer last, unless a sync of another one had failed
since after its reset. -/
theorem switch_reported (s : σ) (calls : List (Buffer × Position)) (b : Buffer)
    (target : Position) {report : SyncReport} {t' : Tracked (Recorded σ)}
    (h : ((Run.start s).syncs calls).trySync b target = (.ok report, t')) :
    (report.switched = true ↔ lastSynced ((Run.start s).syncs calls).turns ≠ some b.id) ∧
      (lastGiven ((Run.start s).syncs calls).turns ≠ some b.id →
        HasReset b t'.server.history ∧ report.mode = .full) ∧
      (report.switched = true →
        (∀ u ∈ sinceSynced ((Run.start s).syncs calls).turns, u.buffer.id = b.id →
          u.failedAtSeek = false) →
        HasReset b t'.server.history ∧ report.mode = .full) ∧
      (report.switched = false →
        (∀ u ∈ sinceSynced ((Run.start s).syncs calls).turns, u.buffer.id ≠ b.id →
          u.gave = false) →
        lastGiven ((Run.start s).syncs calls).turns = some b.id) := by
  have haccounts := accounts_syncs s calls
  generalize (Run.start s).syncs calls = r at h haccounts ⊢
  have hturn := r.outturn_sync b target
  have hswitch : r.tracker.isSwitch b.id = true ↔ lastSynced r.turns ≠ some b.id := by
    rw [Tracker.isSwitch, bne_iff_ne, haccounts.tracked]
  rw [h] at hturn
  cases hturn with
  | kept hfailed => cases hfailed
  | dropped hfailed => cases hfailed
  | unsought hseek => cases Turn.succeeded_of_failedAtSeek hseek
  | @done m report' hresult hswitched hbuffer ht hgiven =>
    obtain rfl := Except.ok.inj hresult
    rw [hswitched]
    refine ⟨hswitch, fun hother => ?_, fun hyes hseek => ?_, fun hno hgave => ?_⟩
    · rcases hgiven with ⟨-, hreset⟩ | ⟨-, m₀, hm₀, hid⟩
      · exact hreset
      · exact absurd (hid ▸ haccounts.given m₀ hm₀) hother
    · rcases hgiven with ⟨-, hreset⟩ | ⟨-, m₀, hm₀, hid⟩
      · exact hreset
      · rcases haccounts.marked m₀ hm₀ with htracked | ⟨u, hu, hid', hfailed⟩
        · rw [haccounts.tracked, hid] at htracked
          exact absurd htracked (hswitch.mp hyes)
        · exact absurd hfailed (by simp [hseek u hu (hid'.trans hid)])
    · have hsynced : lastSynced r.turns = some b.id := by
        by_contra hne
        rw [hswitch.mpr hne] at hno
        cases hno
      rcases haccounts.held b.id hsynced with hheld | ⟨u, hu, hne, hu'⟩
      · exact hheld
      · exact absurd hu' (by simp [hgave u hu hne])

/-! Two buffers of one line, and a sync of the second one that fails, between two that succeed. -/

def oneLine : Buffer := .ofLines 0 "lib/a.ml" ["ab"]

def otherLine : Buffer := .ofLines 1 "lib/b.ml" ["cd"]

/-- The commands of a full sync of one line, all of them accepted. -/
def fullSync : List Reaction :=
  [.accept (Position.lineStart 1).toJson 0, .accept (.bool true) 0,
    .accept (Position.lineStart 1).toJson 0]

def rejection : Reaction := ⟨false, 0, .ok (.rejected ⟨.exception, .string "Not_found"⟩), false⟩

/-- The second sync fails when it tells the line. -/
def tellRejected : Run TextServer :=
  (Run.start ⟨1, .fresh, fullSync ++ fullSync.take 1 ++ [rejection] ++ fullSync⟩).syncs
    [(oneLine, ⟨1, 0⟩), (otherLine, ⟨1, 0⟩)]

/-- The second sync fails when it seeks its target, and the third one finds the mark. -/
def seekRejected : Run TextServer :=
  (Run.start ⟨1, .fresh, fullSync ++ fullSync.take 2 ++
      [rejection, .accept (Position.lineStart 2).toJson 3,
        .accept (Position.lineStart 1).toJson 0]⟩).syncs
    [(oneLine, ⟨1, 0⟩), (otherLine, ⟨1, 0⟩)]

theorem switch_reported_tellRejected :
    ∃ report t', tellRejected.trySync oneLine ⟨1, 0⟩ = (.ok report, t') ∧
      report.switched = false ∧ HasReset oneLine t'.server.history ∧ report.mode = .full := by
  have hsync : (tellRejected.trySync oneLine ⟨1, 0⟩).1 =
      .ok ⟨.full, some ⟨1, 1, 1, true⟩, false, ⟨1, 0⟩⟩ :=
    eq_ok_of_toOption (by decide +kernel)
  have hgiven : lastGiven tellRejected.turns ≠ some oneLine.id := by decide +kernel
  obtain ⟨-, hreset, -, -⟩ := switch_reported _ _ oneLine ⟨1, 0⟩ (Prod.ext hsync rfl)
  exact ⟨_, _, Prod.ext hsync rfl, rfl, hreset hgiven⟩

/-- No switch, and the server was given the other buffer last; a switch, without a reset. -/
theorem switches_misreported :
    ((tellRejected.trySync oneLine ⟨1, 0⟩).1 =
        .ok ⟨.full, some ⟨1, 1, 1, true⟩, false, ⟨1, 0⟩⟩ ∧
      lastGiven tellRejected.turns = some otherLine.id ∧ otherLine.id ≠ oneLine.id) ∧
      (seekRejected.trySync otherLine ⟨1, 0⟩).1 = .ok ⟨.incremental, none, true, ⟨1, 0⟩⟩ ∧
      (seekRejected.trySync otherLine ⟨1, 0⟩).2.server.history.map (fun e => e.command.label) =
        ["seek before", "seek exact"] :=
  ⟨⟨eq_ok_of_toOption (by decide +kernel), by decide +kernel, by decide⟩,
    eq_ok_of_toOption (by decide +kernel), by decide +kernel⟩

end Sync

end EditorBridge
