import EditorBridge.CommandLine.Run
import EditorBridge.Proofs.Session.Blind

/-!
# Asking a query

Every query sends a command before anything else can come of it (`sends_ask`): where commands fail
it fails, and its error is that of its first command. And a query asked in a session that has no
mark depends on the server only through the answers to its commands (`blind_ask`).
-/

namespace EditorBridge.CommandLine

open Exchange (Blind)
open Session (Alike Fresh)

variable {σ α β : Type} {R : σ → σ → Prop}

/-! ## Queries go by the answers -/

theorem blind_nextScopes (n : Nat) :
    Blind (Alike R) (Alike R) (nextScopes n : Exchange (Session σ) (List ScopeView)) := by
  induction n with
  | zero => exact Exchange.blind_pure (fun _ _ h => h) _
  | succ n ih =>
    rw [nextScopes]
    have hnext : Blind (Alike R) (Alike R)
        (Session.nextScope : Exchange (Session σ) (Option ScopeView)) :=
      (Session.blind_navigate _).bind fun _ s t h =>
        ⟨congrArg (fun n : Navigator => Except.ok n.view?) h.2, h⟩
    refine hnext.bind fun view => ?_
    cases view with
    | none => exact Exchange.blind_pure (fun _ _ h => h) _
    | some view => exact ih.bind fun rest => Exchange.blind_pure (fun _ _ h => h) _

variable [Transport σ]

/-- **A query goes by the answers to its commands,** and by nothing else that servers may differ
in. -/
theorem blind_ask (h : Indistinct R) (config : Config) (buffer : Buffer) (query : Query) :
    Blind (Fresh R) (Alike R) (ask config buffer query : Exchange (Session σ) Printout) := by
  have hpure : ∀ p : Printout,
      Blind (Alike R) (Alike R) (pure p : Exchange (Session σ) Printout) :=
    Exchange.blind_pure fun _ _ h => h
  have hfresh : ∀ {α : Type} {x : Exchange (Session σ) α}, Blind (Alike R) (Alike R) x →
      Blind (Fresh R) (Alike R) x := fun hx s t hst => hx s t hst.alike
  cases query with
  | sync at? =>
    cases at? with
    | none => exact (Session.blind_syncTo h buffer _).bind fun _ => hpure _
    | some p => exact (Session.blind_syncTo h buffer p).bind fun _ => hpure _
  | complete cursor beginning inPlace =>
    cases inPlace with
    | true => exact (Session.blind_completeAt h buffer cursor beginning).bind fun _ => hpure _
    | false => exact (Session.blind_complete h buffer cursor beginning).bind fun _ => hpure _
  | identifiers cursor beginning =>
    exact (Session.blind_completeAt h buffer cursor beginning).bind fun _ => hpure _
  | type cursor expr => exact (Session.blind_typeAt h buffer cursor expr).bind fun _ => hpure _
  | enclosing cursor expr outward =>
    refine (Session.blind_typeEnclosing h buffer cursor expr).bind fun answer => ?_
    cases answer with
    | fallback info => exact hpure _
    | scope view => exact (blind_nextScopes outward).bind fun _ => hpure _
  | errors =>
    exact (Session.blind_syncTo h buffer _).bind fun _ =>
      (Session.blind_request h _ _).bind fun _ => hpure _
  | packages => exact hfresh ((Session.blind_request h _ _).bind fun _ => hpure _)
  | use packages => exact hfresh ((Session.blind_request h _ _).bind fun _ => hpure _)
  | which name ext => exact hfresh ((Session.blind_request h _ _).bind fun _ => hpure _)
  | whichExt ext =>
    exact hfresh (((Session.blind_request h _ _).bind fun files =>
      Exchange.blind_pure (fun _ _ h => h) _).bind fun _ => hpure _)
  | phrase first last =>
    refine (Session.blind_selectPhrase h buffer first last).bind fun span => ?_
    cases span <;> exact hpure _
  | reload => exact hfresh ((Session.blind_request h _ _).bind fun _ => hpure _)

/-! ## Queries begin with a command -/

/-- Every command that this server is sent fails in the same way. -/
def AllFail (server : σ) (e : BridgeError) : Prop :=
  ∀ command, ((Transport.call command).run server).1 = .error e

/-- The exchange begins with a command, and fails if this fails. -/
def Sends (x : Exchange (Session σ) α) : Prop :=
  ∀ s e, AllFail s.server e → (x.run s).1 = .error e

theorem Sends.bind {x : Exchange (Session σ) α} (hx : Sends x)
    (f : α → Exchange (Session σ) β) : Sends (x >>= f) := by
  intro s e h
  have herror := hx s e h
  rw [Exchange.run_bind]
  rcases hrun : x.run s with ⟨c | a, s'⟩ <;> rw [hrun] at herror
  · exact congrArg Except.error (Except.error.inj herror)
  · cases herror

theorem sends_request (command : Command) (decode : Json → Option α) :
    Sends (Session.onServer (request command decode) : Exchange (Session σ) α) := by
  intro s e h
  change ((request command decode).run s.server).1 = _
  have hanswer : (Transport.entry s.server command).answer = .error e := h command
  rw [run_request, Entry.reading, hanswer]

theorem sends_syncTo (b : Buffer) (target : Position) :
    Sends (Session.syncTo b target : Exchange (Session σ) SyncReport) := by
  intro s e h
  obtain ⟨es, t', r, htalk, hcourse, hrun⟩ := Sync.run_syncTo b target s.toTracked
  rw [Session.run_syncTo, hrun]
  obtain ⟨first, rest, rfl, hname⟩ := hcourse.exists_cons
  have hfirst : first.verdict = .error e := by
    have hanswer : first.answer = .error e := by
      rw [htalk.of_cons.1]
      exact h first.command
    rw [Entry.verdict_of_name hname, Entry.position, Entry.reading, hanswer]
    rfl
  cases r with
  | ok report =>
    have husable : first.verdict = .ok () := hcourse.settles first List.mem_cons_self
    rw [hfirst] at husable
    cases husable
  | error c =>
    obtain ⟨init, last, hes, hinit, hlast⟩ := hcourse.settles
    cases init with
    | nil =>
      obtain ⟨rfl, -⟩ := List.cons.inj hes
      exact congrArg Except.error (Except.error.inj (hlast.symm.trans hfirst))
    | cons e' init =>
      obtain ⟨rfl, -⟩ := List.cons.inj hes
      have husable : first.verdict = .ok () := hinit first List.mem_cons_self
      rw [hfirst] at husable
      cases husable

/-- **A query begins with a command,** and fails if this fails. -/
theorem sends_ask (config : Config) (buffer : Buffer) (query : Query) :
    Sends (ask config buffer query : Exchange (Session σ) Printout) := by
  cases query with
  | sync at? =>
    cases at? with
    | none => exact (sends_syncTo buffer _).bind _
    | some p => exact (sends_syncTo buffer p).bind _
  | complete cursor beginning inPlace =>
    cases inPlace with
    | true => exact ((sends_syncTo buffer cursor).bind _).bind _
    | false => exact ((sends_syncTo buffer cursor).bind _).bind _
  | identifiers cursor beginning => exact ((sends_syncTo buffer cursor).bind _).bind _
  | type cursor expr => exact ((sends_syncTo buffer cursor).bind _).bind _
  | enclosing cursor expr outward =>
    have hsends : Sends (Session.typeEnclosing buffer cursor expr :
        Exchange (Session σ) EnclosingAnswer) :=
      fun s e h => (sends_syncTo buffer cursor).bind _ { s with navigator := .empty } e h
    exact hsends.bind _
  | errors => exact (sends_syncTo buffer _).bind _
  | packages => exact (sends_request _ _).bind _
  | use packages => exact (sends_request _ _).bind _
  | which name ext => exact (sends_request _ _).bind _
  | whichExt ext => exact ((sends_request _ _).bind _).bind _
  | phrase first last => exact ((sends_syncTo buffer last).bind _).bind _
  | reload => exact (sends_request _ _).bind _

end EditorBridge.CommandLine
