import EditorBridge.Proofs.Sync.Course
import EditorBridge.Session.Basic
import Mathlib.Data.List.Induction

/-!
# Runs of a session

What an editor can ask of a session is an `Operation`, and `after` is what a run of operations
leaves. A session with a recorded server has the history of the whole run.

Most operations do not ask for scopes. Such an operation is calm: its scopes stay and with them the
tracked buffer, or they are forgotten (`Calm`). Calm operations are put together from calm ones
(`Calm.bind`), and from exchanges with the server that are quiet, which is that they do not ask for
scopes either (`Quiet`). The main statements are `Operation.calm_perform` and, for an operation on
another buffer than the tracked one, `Operation.scopes_perform`.
-/

namespace EditorBridge

/-- The command asks for the scopes around a position. -/
def Entry.AsksScopes (e : Entry) : Prop := e.command.label = "type enclosing"

variable {σ α β : Type}

theorem Exchange.run_unlessRejected_snd (x : Exchange σ α) (s : σ) :
    (x.unlessRejected.run s).2 = (x.run s).2 := by
  rw [unlessRejected, run_ofFun]
  rcases x.run s with ⟨(_ | _) | a, s'⟩ <;> rfl

open Transport (next entry)

namespace Session

/-- The scopes are gone, or they are what they were and so is the tracked buffer. -/
def Keeps (s s' : Session σ) : Prop :=
  s'.navigator.scopes = [] ∨
    s'.navigator.scopes = s.navigator.scopes ∧ s'.tracker.tracked = s.tracker.tracked

theorem Keeps.refl (s : Session σ) : Keeps s s := Or.inr ⟨rfl, rfl⟩

theorem Keeps.nil {s s' : Session σ} (h : Keeps s s') (hs : s.navigator.scopes = []) :
    s'.navigator.scopes = [] := by
  rcases h with h | ⟨h, -⟩
  · exact h
  · rw [h, hs]

theorem Keeps.trans {s s' s'' : Session σ} (h : Keeps s s') (h' : Keeps s' s'') :
    Keeps s s'' := by
  rcases h' with h' | ⟨hscopes, htracked⟩
  · exact Or.inl h'
  · rcases h with h | ⟨h, ht⟩
    · exact Or.inl (hscopes.trans h)
    · exact Or.inr ⟨hscopes.trans h, htracked.trans ht⟩

end Session

variable [Transport σ]

/-! ## Quiet exchanges with the server -/

/-- An exchange that does not ask for scopes. -/
def Quiet (x : Exchange σ α) : Prop :=
  ∀ s, ∃ es, Talk s es (x.run s).2 ∧ ∀ e ∈ es, ¬ e.AsksScopes

theorem quiet_pure (a : α) : Quiet (pure a : Exchange σ α) :=
  fun s => ⟨[], .nil s, List.forall_mem_nil _⟩

theorem Quiet.bind {x : Exchange σ α} {f : α → Exchange σ β} (hx : Quiet x)
    (hf : ∀ a, Quiet (f a)) : Quiet (x >>= f) := by
  intro s
  obtain ⟨es, htalk, hes⟩ := hx s
  rw [Exchange.run_bind]
  rcases hrun : x.run s with ⟨c | a, s'⟩ <;> rw [hrun] at htalk
  · exact ⟨es, htalk, hes⟩
  · obtain ⟨fs, htalk', hfs⟩ := hf a s'
    exact ⟨es ++ fs, htalk.append htalk', List.forall_mem_append.mpr ⟨hes, hfs⟩⟩

theorem quiet_request (command : Command) (decode : Json → Option α)
    (h : command.label ≠ "type enclosing") : Quiet (request command decode : Exchange σ α) := by
  intro s
  rw [run_request]
  exact ⟨_, Talk.single s command, List.forall_mem_singleton.mpr h⟩

theorem Quiet.unlessRejected {x : Exchange σ α} (hx : Quiet x) : Quiet x.unlessRejected := by
  intro s
  rw [Exchange.run_unlessRejected_snd]
  exact hx s

namespace Session

theorem quiet_queryType (cursor : Position) (expr : Option String) (approximate : Bool) :
    Quiet (queryType cursor expr approximate : Exchange σ TypeInfo) := by
  have hcursor : Quiet (request (Command.typeAt none cursor) some : Exchange σ Json) :=
    quiet_request _ _ (show "type at" ≠ "type enclosing" by decide)
  unfold queryType
  cases expr with
  | none =>
    refine (quiet_pure none).bind fun answer => ?_
    cases answer with
    | some payload => exact quiet_pure _
    | none => exact hcursor.bind fun payload => quiet_pure _
  | some e =>
    have hexpr : Quiet (request (Command.typeAt (some e) cursor) some : Exchange σ Json) :=
      quiet_request _ _ (show "type expression" ≠ "type enclosing" by decide)
    refine hexpr.unlessRejected.bind fun answer => ?_
    cases answer with
    | some payload => exact quiet_pure _
    | none => exact hcursor.bind fun payload => quiet_pure _

/-! ## Calm operations -/

/-- One session becomes another without a question for scopes. -/
def Calms (s s' : Session σ) : Prop :=
  (∃ es, Talk s.server es s'.server ∧ ∀ e ∈ es, ¬ e.AsksScopes) ∧ Keeps s s'

theorem Calms.of_keeps {s s' : Session σ} (h : Keeps s s') (hserver : s'.server = s.server) :
    Calms s s' :=
  ⟨⟨[], hserver ▸ .nil _, List.forall_mem_nil _⟩, h⟩

theorem Calms.trans {s s' s'' : Session σ} (h : Calms s s') (h' : Calms s' s'') :
    Calms s s'' := by
  obtain ⟨⟨es, htalk, hes⟩, hkeeps⟩ := h
  obtain ⟨⟨fs, htalk', hfs⟩, hkeeps'⟩ := h'
  exact ⟨⟨es ++ fs, htalk.append htalk', List.forall_mem_append.mpr ⟨hes, hfs⟩⟩,
    hkeeps.trans hkeeps'⟩

/-- An operation that does not ask for scopes. -/
def Calm (x : Exchange (Session σ) α) : Prop := ∀ s, Calms s (x.run s).2

theorem calm_pure (a : α) : Calm (pure a : Exchange (Session σ) α) :=
  fun s => .of_keeps (.refl s) rfl

theorem calm_look (f : Session σ → α) : Calm (Exchange.look f) :=
  fun s => .of_keeps (.refl s) rfl

theorem Calm.bind {x : Exchange (Session σ) α} {f : α → Exchange (Session σ) β} (hx : Calm x)
    (hf : ∀ a, Calm (f a)) : Calm (x >>= f) := by
  intro s
  have hcalm := hx s
  rw [Exchange.run_bind]
  rcases hrun : x.run s with ⟨c | a, s'⟩ <;> rw [hrun] at hcalm
  · exact hcalm
  · exact hcalm.trans (hf a s')

theorem calm_onServer {x : Exchange σ α} (hx : Quiet x) : Calm (onServer x) :=
  fun s => ⟨hx s.server, Or.inr ⟨rfl, rfl⟩⟩

theorem calm_request (command : Command) (decode : Json → Option α)
    (h : command.label ≠ "type enclosing") :
    Calm (onServer (request command decode) : Exchange (Session σ) α) :=
  calm_onServer (quiet_request command decode h)

theorem calm_navigate {f : Navigator → Navigator}
    (h : ∀ n, (f n).scopes = [] ∨ (f n).scopes = n.scopes) :
    Calm (navigate f : Exchange (Session σ) Unit) := by
  intro s
  refine .of_keeps ?_ rfl
  rcases h s.navigator with h | h
  · exact Or.inl h
  · exact Or.inr ⟨h, rfl⟩

theorem run_reset (name : Option String) (s : Session σ) :
    ((reset name).run s).2 =
      ⟨⟨next s.server (Command.reset name), s.tracker.invalidate⟩, s.navigator⟩ := by
  rw [reset, onTracked, Exchange.run_zoom, Sync.run_reset]

theorem calm_reset (name : Option String) : Calm (reset name : Exchange (Session σ) Position) := by
  intro s
  rw [run_reset]
  refine ⟨⟨_, Talk.single s.server (Command.reset name), List.forall_mem_singleton.mpr ?_⟩,
    Or.inr ⟨rfl, rfl⟩⟩
  cases name
  · exact show "reset" ≠ "type enclosing" by decide
  · exact show "reset name" ≠ "type enclosing" by decide

/-- A sync of another buffer forgets the scopes before it begins. -/
theorem run_syncTo (b : Buffer) (target : Position) (s : Session σ) :
    (syncTo b target).run s =
      (((Sync.syncTo b target).run s.toTracked).1,
        ⟨((Sync.syncTo b target).run s.toTracked).2,
          if s.tracker.isSwitch b.id then .empty else s.navigator⟩) := by
  rw [syncTo, Sync.run_look_bind]
  cases s.tracker.isSwitch b.id <;> rfl

/-- A sync tracks its buffer, or the same one as before. -/
theorem tracked_of_course {b : Buffer} {target : Position} {t t' : Tracker} {g : Nat}
    {es : List Entry} {r : Except BridgeError SyncReport} (h : Sync.Course b target t g es t' r) :
    t'.tracked = some b.id ∨ (∃ c, r = .error c) ∧ t'.tracked = t.tracked := by
  cases h with
  | unopened hopen => exact Or.inr ⟨⟨_, rfl⟩, hopen.tracked_eq⟩
  | cut hopen => exact Or.inr ⟨⟨_, rfl⟩, hopen.tracked_eq⟩
  | unsought => exact Or.inr ⟨⟨_, rfl⟩, rfl⟩
  | done => exact Or.inl rfl

theorem calm_syncTo (b : Buffer) (target : Position) :
    Calm (syncTo b target : Exchange (Session σ) SyncReport) := by
  intro s
  obtain ⟨es, t', r, htalk, hcourse, hrun⟩ := Sync.run_syncTo b target s.toTracked
  rw [run_syncTo, hrun]
  refine ⟨⟨es, htalk, fun e he hasks => ?_⟩, ?_⟩
  · have hlabel := hcourse.label_mem e he
    rw [hasks] at hlabel
    exact absurd hlabel (by decide)
  · cases hswitch : s.tracker.isSwitch b.id with
    | true => exact Or.inl rfl
    | false =>
      have htracked : s.tracker.tracked = some b.id := by
        rwa [Tracker.isSwitch, bne_eq_false_iff_eq] at hswitch
      refine Or.inr ⟨rfl, ?_⟩
      rcases tracked_of_course hcourse with h | ⟨-, h⟩
      · exact h.trans htracked.symm
      · exact h

theorem calm_boundary : Calm (boundary : Exchange (Session σ) (Option Span)) :=
  calm_request Command.boundary _ (show "boundary" ≠ "type enclosing" by decide)

theorem calm_seekExact (p : Position) : Calm (seekExact p : Exchange (Session σ) Position) :=
  calm_request (Command.seekExact p) _ (show "seek exact" ≠ "type enclosing" by decide)

/-! ## Operations on a buffer -/

/-- An operation that begins with a sync of the buffer, and is calm after it. -/
def SyncsFirst (b : Buffer) (x : Exchange (Session σ) α) : Prop :=
  ∃ (target : Position) (f : SyncReport → Exchange (Session σ) α),
    x = syncTo b target >>= f ∧ ∀ report, Calm (f report)

theorem SyncsFirst.calm {b : Buffer} {x : Exchange (Session σ) α} (h : SyncsFirst b x) :
    Calm x := by
  obtain ⟨target, f, rfl, hf⟩ := h
  exact (calm_syncTo b target).bind hf

/-- Whether it succeeds or not, an operation on another buffer than the tracked one forgets the
scopes. -/
theorem SyncsFirst.scopes_eq_nil {b : Buffer} {x : Exchange (Session σ) α}
    (h : SyncsFirst b x) {s : Session σ} (hs : s.tracker.tracked ≠ some b.id) :
    (x.run s).2.navigator.scopes = [] := by
  obtain ⟨target, f, rfl, hf⟩ := h
  have hswitch : s.tracker.isSwitch b.id = true := bne_iff_ne.mpr hs
  rw [Exchange.run_bind, run_syncTo, if_pos hswitch]
  rcases (Sync.syncTo b target).run s.toTracked with ⟨c | report, t⟩
  · rfl
  · exact (hf report ⟨t, .empty⟩).2.nil rfl

theorem syncsFirst_syncTo (b : Buffer) (target : Position) :
    SyncsFirst b (syncTo b target : Exchange (Session σ) SyncReport) :=
  ⟨target, pure, (bind_pure _).symm, calm_pure⟩

theorem syncsFirst_complete (b : Buffer) (cursor : Position) (beginning : String) :
    SyncsFirst b (complete b cursor beginning : Exchange (Session σ) (List Completion)) :=
  ⟨cursor, _, rfl, fun _ => calm_request (Command.complete beginning none) _
    (show "complete prefix" ≠ "type enclosing" by decide)⟩

theorem syncsFirst_completeAt (b : Buffer) (cursor : Position) (beginning : String) :
    SyncsFirst b (completeAt b cursor beginning : Exchange (Session σ) (List Completion)) :=
  ⟨cursor, _, rfl, fun _ => calm_request (Command.complete beginning (some cursor)) _
    (show "complete prefix" ≠ "type enclosing" by decide)⟩

theorem syncsFirst_typeAt (b : Buffer) (cursor : Position) (expr : Option String) :
    SyncsFirst b (typeAt b cursor expr : Exchange (Session σ) TypeInfo) :=
  ⟨cursor, _, rfl, fun _ => calm_onServer (quiet_queryType cursor expr false)⟩

theorem syncsFirst_selectPhrase (b : Buffer) (first last : Position) :
    SyncsFirst b (selectPhrase b first last : Exchange (Session σ) (Option Span)) := by
  refine ⟨last, _, rfl, ?_⟩
  intro report
  refine (calm_seekExact last).bind fun _ => calm_boundary.bind fun atLast => ?_
  cases atLast with
  | none => exact calm_pure none
  | some atLast =>
    by_cases h : first = last
    · simp only [if_pos h]
      exact calm_pure _
    · simp only [if_neg h]
      refine (calm_seekExact first).bind fun _ => calm_boundary.bind fun atFirst => ?_
      cases atFirst <;> exact calm_pure _

theorem calm_loadProject (isFile : Path → Bool) (dir : Path) (depth : Nat) :
    Calm (loadProject isFile dir depth :
      Exchange (Session σ) (Except Overflow (Option Path))) := by
  unfold loadProject
  rcases Project.search isFile dir depth with overflow | _ | path
  · exact calm_pure _
  · exact calm_pure _
  · exact Calm.bind (calm_request (Command.loadProject path.render) _
      (show "project load" ≠ "type enclosing" by decide)) fun _ =>
      (calm_reset none).bind fun _ => calm_pure _

/-! ## Runs -/

/-- What an editor can ask of a session. -/
inductive Operation where
  | refresh
  | reset (name : Option String)
  | tell (kind : TellKind) (lines : List String)
  | seekBefore (p : Position)
  | seekExact (p : Position)
  | seekScope
  | seekEnd
  | syncTo (buffer : Buffer) (target : Position)
  | syncAll (buffer : Buffer)
  | complete (buffer : Buffer) (cursor : Position) (beginning : String)
  | completeAt (buffer : Buffer) (cursor : Position) (beginning : String)
  | errors
  | typeAt (buffer : Buffer) (cursor : Position) (expr : Option String)
  | typeEnclosing (buffer : Buffer) (cursor : Position) (expr : Option String)
  | nextScope
  | previousScope
  | boundary
  | selectPhrase (buffer : Buffer) (first last : Position)
  | whichFile (name : String) (ext : Option String)
  | whichWithExt (ext : String)
  | usePackages (packages : List String)
  | listPackages
  | loadProject (isFile : Path → Bool) (dir : Path) (depth : Nat)

namespace Operation

/-- The buffer that an operation brings the server's copy up to date with. -/
def buffer? : Operation → Option Buffer
  | .syncTo b _ => some b
  | .syncAll b => some b
  | .complete b _ _ => some b
  | .completeAt b _ _ => some b
  | .typeAt b _ _ => some b
  | .typeEnclosing b _ _ => some b
  | .selectPhrase b _ _ => some b
  | _ => none

def isTypeEnclosing : Operation → Bool
  | .typeEnclosing _ _ _ => true
  | _ => false

/-- What an operation leaves of a session. -/
def perform (s : Session σ) : Operation → Session σ
  | .refresh => (Session.refresh.run s).2
  | .reset name => ((Session.reset name).run s).2
  | .tell kind lines => ((Session.tell kind lines).run s).2
  | .seekBefore p => ((Session.seekBefore p).run s).2
  | .seekExact p => ((Session.seekExact p).run s).2
  | .seekScope => (Session.seekScope.run s).2
  | .seekEnd => (Session.seekEnd.run s).2
  | .syncTo b target => ((Session.syncTo b target).run s).2
  | .syncAll b => ((Session.syncAll b).run s).2
  | .complete b cursor beginning => ((Session.complete b cursor beginning).run s).2
  | .completeAt b cursor beginning => ((Session.completeAt b cursor beginning).run s).2
  | .errors => (Session.errors.run s).2
  | .typeAt b cursor expr => ((Session.typeAt b cursor expr).run s).2
  | .typeEnclosing b cursor expr => ((Session.typeEnclosing b cursor expr).run s).2
  | .nextScope => (Session.nextScope.run s).2
  | .previousScope => (Session.previousScope.run s).2
  | .boundary => (Session.boundary.run s).2
  | .selectPhrase b first last => ((Session.selectPhrase b first last).run s).2
  | .whichFile name ext => ((Session.whichFile name ext).run s).2
  | .whichWithExt ext => ((Session.whichWithExt ext).run s).2
  | .usePackages packages => ((Session.usePackages packages).run s).2
  | .listPackages => (Session.listPackages.run s).2
  | .loadProject isFile dir depth => ((Session.loadProject isFile dir depth).run s).2

end Operation

theorem scopes_forward (n : Navigator) : n.forward.scopes = n.scopes := by
  unfold Navigator.forward
  split
  · rfl
  · split <;> rfl

theorem scopes_backward (n : Navigator) : n.backward.scopes = n.scopes := by
  unfold Navigator.backward
  split
  · rfl
  · split <;> rfl

/-- **Only a question for scopes is not calm.** -/
theorem Operation.calm_perform {op : Operation} (h : op.isTypeEnclosing = false)
    (s : Session σ) : Calms s (op.perform s) := by
  cases op with
  | refresh =>
    exact calm_request Command.refresh _ (show "refresh" ≠ "type enclosing" by decide) s
  | reset name => exact calm_reset name s
  | tell kind lines =>
    refine calm_request (Command.tell kind lines) _ ?_ s
    rw [Command.label_tell]
    cases kind <;> decide
  | seekBefore p =>
    exact calm_request (Command.seekBefore p) _
      (show "seek before" ≠ "type enclosing" by decide) s
  | seekExact p => exact calm_seekExact p s
  | seekScope =>
    exact calm_request Command.seekScope _
      (show "seek maximize_scope" ≠ "type enclosing" by decide) s
  | seekEnd =>
    exact calm_request Command.seekEnd _ (show "seek end" ≠ "type enclosing" by decide) s
  | syncTo b target => exact calm_syncTo b target s
  | syncAll b => exact calm_syncTo b _ s
  | complete b cursor beginning => exact (syncsFirst_complete b cursor beginning).calm s
  | completeAt b cursor beginning => exact (syncsFirst_completeAt b cursor beginning).calm s
  | errors =>
    exact calm_request Command.errors _ (show "errors" ≠ "type enclosing" by decide) s
  | typeAt b cursor expr => exact (syncsFirst_typeAt b cursor expr).calm s
  | typeEnclosing => cases h
  | nextScope =>
    exact (calm_navigate fun n => Or.inr (scopes_forward n)).bind (fun _ => calm_look _) s
  | previousScope =>
    exact (calm_navigate fun n => Or.inr (scopes_backward n)).bind (fun _ => calm_look _) s
  | boundary => exact calm_boundary s
  | selectPhrase b first last => exact (syncsFirst_selectPhrase b first last).calm s
  | whichFile name ext =>
    exact calm_request (Command.whichPath _) _ (show "which path" ≠ "type enclosing" by decide) s
  | whichWithExt ext =>
    exact Calm.bind (calm_request (Command.whichWithExt ext) _
      (show "which with_ext" ≠ "type enclosing" by decide)) (fun _ => calm_pure _) s
  | usePackages packages =>
    exact calm_request (Command.usePackages packages) _
      (show "find use" ≠ "type enclosing" by decide) s
  | listPackages =>
    exact calm_request Command.listPackages _ (show "find list" ≠ "type enclosing" by decide) s
  | loadProject isFile dir depth => exact calm_loadProject isFile dir depth s

/-- **An operation on another buffer than the tracked one forgets the scopes,** if it does not ask
for new ones. -/
theorem Operation.scopes_perform {op : Operation} {b : Buffer} (hb : op.buffer? = some b)
    (h : op.isTypeEnclosing = false) {s : Session σ} (hs : s.tracker.tracked ≠ some b.id) :
    (op.perform s).navigator.scopes = [] := by
  cases op with
  | syncTo b target =>
    obtain rfl := Option.some.inj hb
    exact (syncsFirst_syncTo b target).scopes_eq_nil hs
  | syncAll b =>
    obtain rfl := Option.some.inj hb
    exact (syncsFirst_syncTo b _).scopes_eq_nil hs
  | complete b cursor beginning =>
    obtain rfl := Option.some.inj hb
    exact (syncsFirst_complete b cursor beginning).scopes_eq_nil hs
  | completeAt b cursor beginning =>
    obtain rfl := Option.some.inj hb
    exact (syncsFirst_completeAt b cursor beginning).scopes_eq_nil hs
  | typeAt b cursor expr =>
    obtain rfl := Option.some.inj hb
    exact (syncsFirst_typeAt b cursor expr).scopes_eq_nil hs
  | typeEnclosing => cases h
  | selectPhrase b first last =>
    obtain rfl := Option.some.inj hb
    exact (syncsFirst_selectPhrase b first last).scopes_eq_nil hs
  | _ => cases hb

/-- What a run of operations leaves of a session with a server that nothing has been told. -/
def after (server : σ) (ops : List Operation) : Session (Recorded σ) :=
  ops.foldl Operation.perform (.ofServer (.ofTransport server))

@[simp] theorem after_concat (server : σ) (ops : List Operation) (op : Operation) :
    after server (ops ++ [op]) = op.perform (after server ops) := by
  simp [after]

end Session

end EditorBridge
