import EditorBridge.Proofs.Session.Run
import EditorBridge.Proofs.Sync.Switch

/-!
# Whose scopes are walked through

The scopes of a session belong to a buffer: they were found by a question for the scopes around a
position in it. `run_typeEnclosing` says what such a question leaves, and `Rests` what the scopes
rest on at the end of a run.

The main statement is `scopes_of_tracked`. If there are scopes, they are the answer to the last
question for scopes, and the buffer it was asked about is still the tracked one. So an operation on
another buffer forgets them, also one that fails, and from then on there is nothing to walk through
until scopes are found again.
-/

namespace EditorBridge

open Transport (next entry)

theorem Navigator.view?_of_scopes_eq_nil {n : Navigator} (h : n.scopes = []) :
    n.view? = none := by
  rw [view?, h]
  split <;> rfl

variable {σ : Type} [Transport σ]

namespace Session

/-! ## A question for scopes -/

/-- What the answer to a question for scopes is read as. -/
theorem run_queryScopes (cursor : Position) (s : σ) :
    ((queryScopes cursor).run s).2 = next s (Command.typeEnclosing cursor) ∧
      ∀ scopes, ((queryScopes cursor).run s).1 = .ok scopes → scopes = [] ∨
        ∃ payload, (entry s (Command.typeEnclosing cursor)).answer = .ok (.accepted payload) ∧
          Scope.listOfJson? payload = some scopes := by
  rw [queryScopes, Exchange.run_bind, Exchange.unlessRejected, Exchange.run_ofFun, run_request]
  cases hreading : (entry s (Command.typeEnclosing cursor)).reading some with
  | error c =>
    cases c with
    | rejected r => exact ⟨rfl, fun scopes h => Or.inl (Except.ok.inj h).symm⟩
    | _ =>
      refine ⟨rfl, ?_⟩
      intro scopes h
      cases h
  | ok payload =>
    obtain ⟨payload, hanswer, hpayload⟩ := Entry.reading_eq_ok_iff.mp hreading
    obtain rfl := Option.some.inj hpayload
    cases hscopes : Scope.listOfJson? payload with
    | none => simp [hscopes]
    | some found =>
      simp only [hscopes]
      refine ⟨rfl, ?_⟩
      intro scopes h
      obtain rfl : found = scopes := Except.ok.inj h
      exact Or.inr ⟨payload, hanswer, hscopes⟩

/-- **What asking for scopes leaves.** There are scopes only if some were found. -/
theorem run_typeEnclosing (b : Buffer) (cursor : Position) (expr : Option String)
    (s : Session σ) :
    (typeEnclosing b cursor expr).run s =
      match (Sync.syncTo b cursor).run s.toTracked with
      | (.error c, t) => (.error c, ⟨t, .empty⟩)
      | (.ok _, t) =>
        match (queryScopes cursor).run t.server with
        | (.error c, server) => (.error c, ⟨⟨server, t.tracker⟩, .empty⟩)
        | (.ok [], server) =>
          (((queryType cursor expr true).run server).1.map .fallback,
            ⟨⟨((queryType cursor expr true).run server).2, t.tracker⟩, .empty⟩)
        | (.ok (scope :: scopes), server) =>
          (.ok (.scope (scope.view 0)), ⟨⟨server, t.tracker⟩, ⟨scope :: scopes, 0⟩⟩) := by
  have hsync : (syncTo b cursor).run ({ s with navigator := .empty } : Session σ) =
      (((Sync.syncTo b cursor).run s.toTracked).1,
        ⟨((Sync.syncTo b cursor).run s.toTracked).2, .empty⟩) := by
    rw [run_syncTo, ite_self]
  rw [typeEnclosing, Exchange.run_bind, navigate, Exchange.run_change]
  simp only
  rw [Exchange.run_bind, hsync]
  rcases (Sync.syncTo b cursor).run s.toTracked with ⟨c | report, t⟩
  · rfl
  · simp only
    rw [Exchange.run_bind, onServer, onTracked, Exchange.run_zoom, Sync.onServer,
      Exchange.run_zoom]
    rcases (queryScopes cursor).run t.server with ⟨c | scopes, server⟩
    · rfl
    · cases scopes with
      | nil =>
        change (onServer (queryType cursor expr true) >>= fun info =>
            (pure (.fallback info) : Exchange (Session σ) EnclosingAnswer)).run
              ⟨⟨server, t.tracker⟩, .empty⟩ =
          (((queryType cursor expr true).run server).1.map .fallback,
            ⟨⟨((queryType cursor expr true).run server).2, t.tracker⟩, .empty⟩)
        rw [Exchange.run_bind, onServer, onTracked, Exchange.run_zoom, Sync.onServer,
          Exchange.run_zoom]
        rcases (queryType cursor expr true).run server with ⟨c | info, server'⟩ <;> rfl
      | cons scope scopes => rfl

/-- Some commands have found scopes for a buffer: the last of them was the question, the scopes are
its answer, and the buffer is tracked. -/
def Finds (b : Buffer) (cursor : Position) (es : List Entry) (s : Session σ) : Prop :=
  s.tracker.tracked = some b.id ∧
    ∃ (asked : List Entry) (e : Entry) (payload : Json), es = asked ++ [e] ∧
      e.command = Command.typeEnclosing cursor ∧ e.answer = .ok (.accepted payload) ∧
      Scope.listOfJson? payload = some s.navigator.scopes

namespace Operation

/-- The operation asks for scopes, and answers one. -/
def YieldsScope (s : Session σ) : Operation → Prop
  | .typeEnclosing b cursor expr =>
    ∃ view, ((Session.typeEnclosing b cursor expr).run s).1 = .ok (.scope view)
  | _ => False

end Operation

/-- **A question for scopes finds some for its buffer,** and answers one of them, or there are none
after it. -/
theorem typeEnclosing_cases (b : Buffer) (cursor : Position) (expr : Option String)
    (s : Session σ) :
    ∃ es, Talk s.server es ((typeEnclosing b cursor expr).run s).2.server ∧
      (((typeEnclosing b cursor expr).run s).2.navigator.scopes = [] ∨
        (Operation.typeEnclosing b cursor expr).YieldsScope s ∧
          Finds b cursor es ((typeEnclosing b cursor expr).run s).2) := by
  obtain ⟨es, t, r, htalk, hcourse, hsync⟩ := Sync.run_syncTo b cursor s.toTracked
  have hrun := run_typeEnclosing b cursor expr s
  rw [hsync] at hrun
  cases r with
  | error c =>
    rw [hrun]
    exact ⟨es, htalk, Or.inl rfl⟩
  | ok report =>
    have htracked : t.tracker.tracked = some b.id := by
      rcases tracked_of_course hcourse with h | ⟨⟨c, hc⟩, -⟩
      · exact h
      · cases hc
    obtain ⟨hserver, hanswer⟩ := run_queryScopes cursor t.server
    have htalk' := htalk.append (Talk.single t.server (Command.typeEnclosing cursor))
    rcases hquery : (queryScopes cursor).run t.server with ⟨c | scopes, server⟩ <;>
      rw [hquery] at hserver hanswer <;> obtain rfl : server = _ := hserver
    · simp only [hquery] at hrun
      rw [hrun]
      exact ⟨_, htalk', Or.inl rfl⟩
    · cases scopes with
      | nil =>
        simp only [hquery] at hrun
        obtain ⟨fs, htype, -⟩ := quiet_queryType cursor expr true
          (next t.server (Command.typeEnclosing cursor))
        rw [hrun]
        exact ⟨_, htalk'.append htype, Or.inl rfl⟩
      | cons scope scopes =>
        simp only [hquery] at hrun
        rcases hanswer _ rfl with hnil | ⟨payload, hpayload, hscopes⟩
        · cases hnil
        · have hyields : (Operation.typeEnclosing b cursor expr).YieldsScope s :=
            ⟨scope.view 0, by rw [hrun]⟩
          rw [hrun]
          exact ⟨_, htalk', Or.inr ⟨hyields, htracked, es, _, payload, rfl, rfl, hpayload,
            hscopes⟩⟩

/-! ## Runs -/

theorem scopes_perform_of_asks {op : Operation} (hasks : op.isTypeEnclosing = true)
    {s : Session σ} (hop : ¬ op.YieldsScope s) : (op.perform s).navigator.scopes = [] := by
  cases op with
  | typeEnclosing b cursor expr =>
    obtain ⟨es, -, hnil | ⟨hyields, -⟩⟩ := typeEnclosing_cases b cursor expr s
    · exact hnil
    · exact absurd hyields hop
  | _ => cases hasks

/-- Without scopes there are none after an operation that yields none. -/
theorem scopes_perform_nil {op : Operation} {s : Session σ} (hs : s.navigator.scopes = [])
    (hop : ¬ op.YieldsScope s) : (op.perform s).navigator.scopes = [] := by
  cases hasks : op.isTypeEnclosing with
  | false => exact (Operation.calm_perform hasks s).2.nil hs
  | true => exact scopes_perform_of_asks hasks hop

/-- An operation on another buffer than the tracked one leaves scopes only if it yields one. -/
theorem scopes_perform_of_switch {op : Operation} {b : Buffer} {s : Session σ}
    (hb : op.buffer? = some b) (hs : s.tracker.tracked ≠ some b.id) (hop : ¬ op.YieldsScope s) :
    (op.perform s).navigator.scopes = [] := by
  cases hasks : op.isTypeEnclosing with
  | false => exact Operation.scopes_perform hb hasks hs
  | true => exact scopes_perform_of_asks hasks hop

/-- What the scopes at the end of a run rest on: they are the answer to the last question for
scopes, which was the last command of an operation on the buffer that is tracked. -/
def Rests (server : σ) (ops : List Operation) : Prop :=
  ∃ (before since : List Operation) (b : Buffer) (cursor : Position) (expr : Option String)
    (front rest : List Entry) (e : Entry) (payload : Json),
    ops = before ++ .typeEnclosing b cursor expr :: since ∧
      (after server before).server.history <+: front ∧
      (after server (before ++ [.typeEnclosing b cursor expr])).server.history = front ++ [e] ∧
      (after server ops).server.history = front ++ e :: rest ∧
      e.command = Command.typeEnclosing cursor ∧ (∀ e' ∈ rest, ¬ e'.AsksScopes) ∧
      e.answer = .ok (.accepted payload) ∧
      Scope.listOfJson? payload = some (after server ops).navigator.scopes ∧
      (after server ops).tracker.tracked = some b.id

theorem history_of_talk {r r' : Recorded σ} {es : List Entry} (h : Talk r es r') :
    r'.history = r.history ++ es := by
  rw [Recorded.history, Recorded.history, h.recorded.1, List.reverse_append, List.reverse_reverse]

/-- What the scopes rest on stays as long as they do. -/
theorem Rests.concat {server : σ} {ops : List Operation} (h : Rests server ops) {op : Operation}
    (hcalm : Calms (after server ops) (op.perform (after server ops)))
    (hne : (op.perform (after server ops)).navigator.scopes ≠ []) :
    Rests server (ops ++ [op]) := by
  obtain ⟨before, since, b, cursor, expr, front, rest, e, payload, hops, hbefore, hasked, hhistory,
    hcommand, hrest, hanswer, hscopes, htracked⟩ := h
  obtain ⟨⟨es, htalk, hes⟩, hnil | ⟨hsame, hsame'⟩⟩ := hcalm
  · exact absurd hnil hne
  · refine ⟨before, since ++ [op], b, cursor, expr, front, rest ++ es, e, payload, ?_, hbefore,
      hasked, ?_, hcommand, List.forall_mem_append.mpr ⟨hrest, hes⟩, hanswer, ?_, ?_⟩
    · rw [hops, List.append_assoc, List.cons_append]
    · rw [after_concat, history_of_talk htalk, hhistory, List.append_assoc, List.cons_append]
    · rw [after_concat, hsame, hscopes]
    · rw [after_concat, hsame', htracked]

/-- **If there are scopes at the end of a run, they rest on the last question for them.** -/
theorem rests_after (server : σ) (ops : List Operation)
    (h : (after server ops).navigator.scopes ≠ []) : Rests server ops := by
  induction ops using List.reverseRecOn with
  | nil => exact absurd rfl h
  | append_singleton ops op ih =>
    rw [after_concat] at h
    cases hasks : op.isTypeEnclosing with
    | false =>
      have hcalm := Operation.calm_perform hasks (after server ops)
      refine (ih ?_).concat hcalm h
      intro hnil
      exact h (hcalm.2.nil hnil)
    | true =>
      cases op with
      | typeEnclosing b cursor expr =>
        obtain ⟨es, htalk, hnil | ⟨-, htracked, asked, e, payload, rfl, hcommand, hanswer,
          hscopes⟩⟩ := typeEnclosing_cases b cursor expr (after server ops)
        · exact absurd hnil h
        · have hhistory := history_of_talk htalk
          rw [← List.append_assoc] at hhistory
          refine ⟨ops, [], b, cursor, expr, (after server ops).server.history ++ asked, [], e,
            payload, rfl, List.prefix_append _ _, ?_, ?_, hcommand,
            List.forall_mem_nil _, hanswer, ?_, ?_⟩ <;> rw [after_concat]
          · exact hhistory
          · exact hhistory
          · exact hscopes
          · exact htracked
      | _ => cases hasks

/-- No operation of a run yields a scope. -/
def YieldsNone (s : Session σ) : List Operation → Prop
  | [] => True
  | op :: ops => ¬ op.YieldsScope s ∧ YieldsNone (op.perform s) ops

/-- Without scopes there are none until an operation yields one. -/
theorem scopes_foldl_nil {ops : List Operation} {s : Session σ} (hs : s.navigator.scopes = [])
    (hops : YieldsNone s ops) : (ops.foldl Operation.perform s).navigator.scopes = [] := by
  induction ops generalizing s with
  | nil => exact hs
  | cons op ops ih => exact ih (scopes_perform_nil hs hops.1) hops.2

/-- **Scopes are those of the tracked buffer.** At every moment of a run the scopes, if there are
any, are the answer to the last question for scopes, which was asked about the tracked buffer. After
an operation on another buffer than the tracked one, whether it succeeds or not, there is no scope
to go to until an operation yields one. -/
theorem scopes_of_tracked (server : σ) (ops : List Operation) :
    ((after server ops).navigator.scopes ≠ [] → Rests server ops) ∧
      ∀ (before since : List Operation) (op : Operation) (b : Buffer),
        ops = before ++ op :: since → op.buffer? = some b →
        (after server before).tracker.tracked ≠ some b.id →
        YieldsNone (after server before) (op :: since) →
        (nextScope.run (after server ops)).1 = .ok none ∧
          (previousScope.run (after server ops)).1 = .ok none := by
  refine ⟨rests_after server ops, ?_⟩
  intro before since op b hops hb hother hnone
  have hscopes : (after server ops).navigator.scopes = [] := by
    rw [hops, after, List.foldl_append]
    change (since.foldl Operation.perform (op.perform (after server before))).navigator.scopes = []
    exact scopes_foldl_nil (scopes_perform_of_switch hb hother hnone.1) hnone.2
  have hnext : (after server ops).navigator.forward.scopes = [] := by
    rw [scopes_forward, hscopes]
  have hprevious : (after server ops).navigator.backward.scopes = [] := by
    rw [scopes_backward, hscopes]
  exact ⟨congrArg Except.ok (Navigator.view?_of_scopes_eq_nil hnext),
    congrArg Except.ok (Navigator.view?_of_scopes_eq_nil hprevious)⟩

/-- The server has one scope for the first buffer, and rejects the reset for the second one. -/
def oneScope : TextServer :=
  ⟨1, .fresh, Sync.fullSync ++
    [.accept (.array [Scope.toJson ⟨⟨⟨1, 0⟩, ⟨1, 2⟩⟩, "int"⟩]) 0, Sync.rejection]⟩

theorem scopes_of_tracked_oneScope :
    Rests oneScope [.typeEnclosing Sync.oneLine ⟨1, 0⟩ none, .previousScope] ∧
      (nextScope.run (after oneScope [.typeEnclosing Sync.oneLine ⟨1, 0⟩ none,
        .syncTo Sync.otherLine ⟨1, 0⟩])).1 = .ok none := by
  have hfound : (after oneScope
      [.typeEnclosing Sync.oneLine ⟨1, 0⟩ none, .previousScope]).navigator.scopes ≠ [] := by
    decide +kernel
  have htracked : (after oneScope
      [.typeEnclosing Sync.oneLine ⟨1, 0⟩ none]).tracker.tracked ≠ some Sync.otherLine.id := by
    decide +kernel
  obtain ⟨hrests, -⟩ := scopes_of_tracked oneScope
    [.typeEnclosing Sync.oneLine ⟨1, 0⟩ none, .previousScope]
  obtain ⟨-, hswitch⟩ := scopes_of_tracked oneScope
    [.typeEnclosing Sync.oneLine ⟨1, 0⟩ none, .syncTo Sync.otherLine ⟨1, 0⟩]
  exact ⟨hrests hfound, (hswitch [_] [] _ Sync.otherLine rfl rfl htracked ⟨id, trivial⟩).1⟩

end Session

end EditorBridge
