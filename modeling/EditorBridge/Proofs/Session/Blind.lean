import EditorBridge.Proofs.Server.Blind
import EditorBridge.Proofs.Session.Run

/-!
# Sessions that answer alike

Two sessions are alike if their servers are related, they track the same buffer, and they have the
same scopes (`Session.Alike`). Their marks may differ. If no command tells related servers apart, an
operation that does not sync a buffer answers alike sessions in the same way.

A sync goes by the mark. So it answers alike sessions in the same way if they have none (`Fresh`),
and leaves alike ones (`blind_syncTo`). This is why `Blind` has a relation for the states before an
exchange and one for those after it.
-/

namespace EditorBridge

variable {σ α β : Type} {R : σ → σ → Prop}

open Exchange (Blind)

/-! ## A server and what is known about its copy -/

namespace Tracked

/-- The servers are related, and the same buffer is tracked. -/
def Alike (R : σ → σ → Prop) (t u : Tracked σ) : Prop :=
  R t.server u.server ∧ t.tracker.tracked = u.tracker.tracked

/-- They are alike, and there is no mark. -/
def Fresh (R : σ → σ → Prop) (t u : Tracked σ) : Prop :=
  t.Alike R u ∧ t.tracker.mark = none ∧ u.tracker.mark = none

end Tracked

namespace Sync

open Tracked (Alike Fresh)

theorem blind_onServer {x : Exchange σ α} (hx : Blind R R x) :
    Blind (Alike R) (Alike R) (onServer x) := by
  rintro t u ⟨hserver, htracked⟩
  obtain ⟨hanswer, hstate⟩ := hx t.server u.server hserver
  exact ⟨hanswer, hstate, htracked⟩

theorem blind_track {f : Tracker → Tracker}
    (hf : ∀ t u, t.tracked = u.tracked → (f t).tracked = (f u).tracked) :
    Blind (Alike R) (Alike R) (track f : Exchange (Tracked σ) Unit) :=
  fun t u h => ⟨rfl, h.1, hf t.tracker u.tracker h.2⟩

/-- What is stored in the mark may be seen, since marks may differ. -/
theorem blind_mark {γ : Type} (f : Tracked σ → γ) (mark : γ → Mark) {k : Exchange (Tracked σ) α}
    (hk : Blind (Alike R) (Alike R) k) :
    Blind (Alike R) (Alike R)
      (Exchange.look f >>= fun c => track (fun t => { t with mark := some (mark c) }) >>=
        fun _ => k) :=
  fun _ _ h => hk _ _ ⟨h.1, h.2⟩

variable [Transport σ]

theorem blind_reset (h : Indistinct R) (name : Option String) :
    Blind (Alike R) (Alike R) (reset name : Exchange (Tracked σ) Position) :=
  (blind_track fun _ _ h => h).bind fun _ => blind_onServer (h.request _ _)

theorem blind_tell (h : Indistinct R) (kind : TellKind) (chunk : List String) :
    Blind R R (Feed.tell kind chunk : Exchange σ Bool) := h.request _ _

theorem blind_feedFrom (h : Indistinct R) (kind : TellKind) (chunk : List String)
    (endLine rounds sent : Nat) (rest : List (List String)) :
    Blind R R (Feed.feedFrom kind chunk endLine rounds sent rest : Exchange σ FeedReport) := by
  induction rest generalizing kind chunk endLine rounds sent with
  | nil =>
    rw [Feed.feedFrom]
    refine (blind_tell h kind chunk).bind fun satisfied => ?_
    cases satisfied <;> exact Exchange.blind_pure (fun _ _ h => h) _
  | cons next rest ih =>
    rw [Feed.feedFrom]
    refine (blind_tell h kind chunk).bind fun satisfied => ?_
    cases satisfied with
    | true => exact Exchange.blind_pure (fun _ _ h => h) _
    | false => exact ih _ _ _ _ _

theorem blind_tellDelta (h : Indistinct R) (b : Buffer) (start : Position) (endLine : Nat) :
    Blind (Alike R) (Alike R)
      (tell b start endLine : Exchange (Tracked σ) (Option FeedReport)) := by
  rw [tell]
  cases delta b.lines start endLine with
  | nil => exact Exchange.blind_pure (fun _ _ h => h) none
  | cons line rest =>
    exact blind_onServer ((blind_feedFrom h _ _ _ _ _ _).bind fun report =>
      Exchange.blind_pure (fun _ _ h => h) _)

/-- Without a mark there is nothing to seek for. -/
theorem blind_land (b : Buffer) :
    Blind (Fresh R) (Alike R) (land b : Exchange (Tracked σ) (Option Position)) := by
  have hland : ∀ t : Tracked σ, t.tracker.mark = none → (land b).run t = (.ok none, t) := by
    intro t ht
    rw [run_land, Tracker.usableMark?, ht]
    rfl
  rintro t u ⟨halike, ht, hu⟩
  rw [hland t ht, hland u hu]
  exact ⟨rfl, halike⟩

theorem blind_begin (h : Indistinct R) (b : Buffer) :
    Blind (Fresh R) (Alike R) (begin b : Exchange (Tracked σ) (SyncMode × Position)) := by
  refine (blind_land b).bind fun landed => ?_
  cases landed with
  | some p => exact Exchange.blind_pure (fun _ _ h => h) _
  | none => exact (blind_reset h _).bind fun _ => Exchange.blind_pure (fun _ _ h => h) _

theorem blind_finish (h : Indistinct R) (b : Buffer) (target : Position) :
    Blind (Alike R) (Alike R) (finish b target : Exchange (Tracked σ) Position) :=
  (blind_onServer (h.request _ _)).bind fun _ =>
    (blind_track fun _ _ _ => rfl).bind fun _ => Exchange.blind_pure (fun _ _ h => h) _

/-- **A sync cannot tell servers apart that no command can,** if there is no mark. -/
theorem blind_syncTo (h : Indistinct R) (b : Buffer) (target : Position) :
    Blind (Fresh R) (Alike R) (syncTo b target : Exchange (Tracked σ) SyncReport) := by
  refine Exchange.Blind.look_bind (fun t u htu => ?_) fun switched => ?_
  · rw [Tracker.isSwitch, Tracker.isSwitch, htu.1.2]
  · refine (blind_begin h b).bind fun opened => ?_
    refine (blind_tellDelta h b _ _).bind fun feed => ?_
    refine blind_mark _ _ ?_
    exact (blind_finish h b target).bind fun _ => Exchange.blind_pure (fun _ _ h => h) _

end Sync

/-! ## Sessions -/

namespace Session

/-- The servers are related, and all but the marks is the same. -/
def Alike (R : σ → σ → Prop) (s t : Session σ) : Prop :=
  s.toTracked.Alike R t.toTracked ∧ s.navigator = t.navigator

/-- The sessions are alike and have no mark. -/
def Fresh (R : σ → σ → Prop) (s t : Session σ) : Prop :=
  s.toTracked.Fresh R t.toTracked ∧ s.navigator = t.navigator

theorem Fresh.alike {s t : Session σ} (h : s.Fresh R t) : s.Alike R t := ⟨h.1.1, h.2⟩

theorem blind_onServer {x : Exchange σ α} (hx : Blind R R x) :
    Blind (Alike R) (Alike R) (onServer x) := by
  rintro s t ⟨htracked, hnavigator⟩
  obtain ⟨hanswer, hstate⟩ := Sync.blind_onServer hx s.toTracked t.toTracked htracked
  exact ⟨hanswer, hstate, hnavigator⟩

theorem blind_navigate (f : Navigator → Navigator) :
    Blind (Alike R) (Alike R) (navigate f : Exchange (Session σ) Unit) :=
  fun _ _ h => ⟨rfl, h.1, congrArg f h.2⟩

variable [Transport σ]

theorem blind_syncTo (h : Indistinct R) (b : Buffer) (target : Position) :
    Blind (Fresh R) (Alike R) (syncTo b target : Exchange (Session σ) SyncReport) := by
  rintro s t ⟨hfresh, hnavigator⟩
  obtain ⟨hanswer, hstate⟩ := Sync.blind_syncTo h b target s.toTracked t.toTracked hfresh
  have hswitch : s.tracker.isSwitch b.id = t.tracker.isSwitch b.id := by
    rw [Tracker.isSwitch, Tracker.isSwitch, hfresh.1.2]
  rw [run_syncTo, run_syncTo, hnavigator, hswitch]
  exact ⟨hanswer, hstate, rfl⟩

theorem blind_request (h : Indistinct R) (command : Command) (decode : Json → Option α) :
    Blind (Alike R) (Alike R) (onServer (request command decode) : Exchange (Session σ) α) :=
  blind_onServer (h.request command decode)

theorem blind_queryType (h : Indistinct R) (cursor : Position) (expr : Option String)
    (approximate : Bool) :
    Blind R R (queryType cursor expr approximate : Exchange σ TypeInfo) := by
  have hfallback : Blind R R (do
      let payload ← request (Command.typeAt none cursor) some
      pure ⟨none, payload.typeText, approximate || expr.isSome⟩ : Exchange σ TypeInfo) :=
    (h.request _ _).bind fun payload => Exchange.blind_pure (fun _ _ h => h) _
  cases expr with
  | none => exact hfallback
  | some e =>
    refine (h.request _ _).unlessRejected.bind fun answer => ?_
    cases answer with
    | some payload => exact Exchange.blind_pure (fun _ _ h => h) _
    | none => exact hfallback

theorem blind_queryScopes (h : Indistinct R) (cursor : Position) :
    Blind R R (queryScopes cursor : Exchange σ (List Scope)) := by
  refine (h.request _ _).unlessRejected.bind fun answer => ?_
  cases answer with
  | none => exact Exchange.blind_pure (fun _ _ h => h) _
  | some payload =>
    dsimp only
    cases Scope.listOfJson? payload with
    | none => exact Exchange.blind_throw _
    | some scopes => exact Exchange.blind_pure (fun _ _ h => h) _

/-! ## Operations on a buffer -/

theorem blind_complete (h : Indistinct R) (b : Buffer) (cursor : Position) (beginning : String) :
    Blind (Fresh R) (Alike R)
      (complete b cursor beginning : Exchange (Session σ) (List Completion)) :=
  (blind_syncTo h b cursor).bind fun _ => blind_request h _ _

theorem blind_completeAt (h : Indistinct R) (b : Buffer) (cursor : Position)
    (beginning : String) :
    Blind (Fresh R) (Alike R)
      (completeAt b cursor beginning : Exchange (Session σ) (List Completion)) :=
  (blind_syncTo h b cursor).bind fun _ => blind_request h _ _

theorem blind_typeAt (h : Indistinct R) (b : Buffer) (cursor : Position)
    (expr : Option String) :
    Blind (Fresh R) (Alike R) (typeAt b cursor expr : Exchange (Session σ) TypeInfo) :=
  (blind_syncTo h b cursor).bind fun _ => blind_onServer (blind_queryType h _ _ _)

theorem blind_typeEnclosing (h : Indistinct R) (b : Buffer) (cursor : Position)
    (expr : Option String) :
    Blind (Fresh R) (Alike R)
      (typeEnclosing b cursor expr : Exchange (Session σ) EnclosingAnswer) := by
  -- the scopes are forgotten before the sync, which does not need them
  refine Exchange.Blind.change_bind (fun s t hst => ⟨hst.1, rfl⟩) ?_
  refine (blind_syncTo h b cursor).bind fun _ => ?_
  refine (blind_onServer (blind_queryScopes h cursor)).bind fun scopes => ?_
  refine (blind_navigate _).bind fun _ => ?_
  cases (Navigator.ofScopes scopes).forward.view? with
  | some view => exact Exchange.blind_pure (fun _ _ h => h) _
  | none =>
    exact (blind_onServer (blind_queryType h _ _ _)).bind fun info =>
      Exchange.blind_pure (fun _ _ h => h) _

theorem blind_selectPhrase (h : Indistinct R) (b : Buffer) (first last : Position) :
    Blind (Fresh R) (Alike R)
      (selectPhrase b first last : Exchange (Session σ) (Option Span)) := by
  refine (blind_syncTo h b last).bind fun _ => (blind_request h _ _).bind fun _ => ?_
  refine (blind_request h _ _).bind fun atLast => ?_
  cases atLast with
  | none => exact Exchange.blind_pure (fun _ _ h => h) _
  | some atLast =>
    by_cases heq : first = last
    · simp only [if_pos heq]
      exact Exchange.blind_pure (fun _ _ h => h) _
    · simp only [if_neg heq]
      refine (blind_request h _ _).bind fun _ => (blind_request h _ _).bind fun atFirst => ?_
      cases atFirst <;> exact Exchange.blind_pure (fun _ _ h => h) _

end Session

end EditorBridge
