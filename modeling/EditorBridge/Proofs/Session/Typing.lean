import EditorBridge.Proofs.Session.Enclosing

/-!
# Questions for types

A question for the type of an expression falls back to what stands at the cursor if the server
rejects the expression, and a question for scopes falls back to a question for a type if there are
no scopes. Only a rejection falls through: any other failure is the result at once.

What a question for a type sends and answers is `TypeTalk`, and what comes after a question for
scopes is `EnclosingTalk`. Both are stated of the entries of the talk, so that every reply counts:
a rejection, a failure of the transport, and a payload of any shape. The main statement is
`type_queries_degrade`.
-/

namespace EditorBridge

open Transport (next entry)

variable {σ β : Type}

namespace Entry

/-- The answer to one who takes any payload. -/
def payload (e : Entry) : Except BridgeError Json := e.reading some

/-- The server has rejected the command. -/
def isRejected (e : Entry) : Bool :=
  match e.payload with
  | .error (.rejected _) => true
  | _ => false

end Entry

variable [Transport σ]

theorem Exchange.run_unlessRejected_bind (command : Command) (f : Option Json → Exchange σ β)
    (s : σ) :
    ((request command some).unlessRejected >>= f).run s =
      match (entry s command).payload with
      | .ok payload => (f (some payload)).run (next s command)
      | .error (.rejected _) => (f none).run (next s command)
      | .error c => (.error c, next s command) := by
  rw [Exchange.run_bind, Exchange.unlessRejected, Exchange.run_ofFun, run_request]
  change _ = match (entry s command).reading some with
    | .ok payload => (f (some payload)).run (next s command)
    | .error (.rejected _) => (f none).run (next s command)
    | .error c => (.error c, next s command)
  rcases (entry s command).reading some with (_ | _) | payload <;> rfl

namespace Session

/-! ## Types -/

/-- The entries of a question for a type and its result: `asked` is about the expression, `retried`
about what stands at the cursor. -/
structure TypeTalk (cursor : Position) (expr : Option String) (approximate : Bool)
    (asked retried : List Entry) (r : Except BridgeError TypeInfo) : Prop where
  /-- The expression is asked about if there is one. -/
  asked_commands :
    asked.map Entry.command = expr.toList.map fun e => Command.typeAt (some e) cursor
  /-- What stands at the cursor is asked about exactly if there is no expression or the server has
  rejected it. -/
  retried_commands : retried.map Entry.command =
    if expr = none ∨ asked.any Entry.isRejected then [Command.typeAt none cursor] else []
  /-- Any other failure is the result at once. -/
  failed : ∀ e ∈ asked, ∀ c, e.payload = .error c → e.isRejected = false →
    r = .error c ∧ retried = []
  /-- The last answer is the result. Beyond what was marked before, it is approximate exactly if the
  server has rejected the expression. -/
  result : ∃ last, (asked ++ retried).getLast? = some last ∧
    r = last.payload.map fun payload =>
      ⟨if asked.any Entry.isRejected then none else expr, payload.typeText,
        approximate || asked.any Entry.isRejected⟩

/-- What an answer to a question for scopes says: a rejection says that there are none. -/
def scopesOf (e : Entry) : Except BridgeError (List Scope) :=
  match e.payload with
  | .ok payload =>
    match Scope.listOfJson? payload with
    | some scopes => .ok scopes
    | none => .error (.unexpectedPayload "type enclosing")
  | .error (.rejected _) => .ok []
  | .error c => .error c

theorem scopesOf_eq_cons_iff {e : Entry} {scope : Scope} {scopes : List Scope} :
    scopesOf e = .ok (scope :: scopes) ↔
      ∃ payload, e.payload = .ok payload ∧ Scope.listOfJson? payload = some (scope :: scopes) := by
  unfold scopesOf
  split
  · rename_i payload h
    cases hlist : Scope.listOfJson? payload <;> simp [h, hlist]
  · rename_i h
    simp [h]
  · rename_i h
    simp [h]

theorem run_queryScopes_eq (cursor : Position) (s : σ) :
    (queryScopes cursor).run s =
      (scopesOf (entry s (Command.typeEnclosing cursor)),
        next s (Command.typeEnclosing cursor)) := by
  unfold queryScopes
  simp only
  rw [Exchange.run_unlessRejected_bind, scopesOf]
  rcases (entry s (Command.typeEnclosing cursor)).payload with (_ | _) | payload
  case ok =>
    simp only
    cases Scope.listOfJson? payload <;> rfl
  all_goals rfl

section

variable {cursor : Position} {expr : Option String} {e : Entry} {rest : List Entry}
  {r : Except BridgeError EnclosingAnswer} {n : Navigator}

/-- What follows from what the answer to a question for scopes says. -/
def Concludes (cursor : Position) (expr : Option String) (rest : List Entry)
    (r : Except BridgeError EnclosingAnswer) (n : Navigator) :
    Except BridgeError (List Scope) → Prop
  | .error c => r = .error c ∧ rest = []
  | .ok [] => n = .empty ∧ ∃ asked retried info?, rest = asked ++ retried ∧
      TypeTalk cursor expr true asked retried info? ∧ r = info?.map .fallback
  | .ok (scope :: scopes) =>
    r = .ok (.scope ⟨0, scope, scope.span.regions⟩) ∧ n = ⟨scope :: scopes, 0⟩ ∧ rest = []

theorem TypeTalk.approximate {asked retried : List Entry} {info : TypeInfo}
    (h : TypeTalk cursor expr true asked retried (.ok info)) : info.approximate = true := by
  obtain ⟨last, -, hresult⟩ := h.result
  cases hlast : last.payload with
  | error c =>
    rw [hlast] at hresult
    cases hresult
  | ok payload =>
    rw [hlast] at hresult
    rw [Except.ok.inj hresult]
    exact Bool.true_or (asked.any Entry.isRejected)

/-- An answer is a scope only if some were found. -/
theorem Concludes.exists_cons {view : ScopeView} {found : Except BridgeError (List Scope)}
    (h : Concludes cursor expr rest (.ok (.scope view)) n found) :
    ∃ scope scopes, found = .ok (scope :: scopes) := by
  rcases found with c | (_ | ⟨scope, scopes⟩)
  · cases h.1
  · obtain ⟨-, asked, retried, info?, -, -, hresult⟩ := h
    cases info? <;> cases hresult
  · exact ⟨scope, scopes, rfl⟩

/-- An answer is a type only if no scopes were found, and then it is marked. -/
theorem Concludes.approximate {info : TypeInfo} {found : Except BridgeError (List Scope)}
    (h : Concludes cursor expr rest (.ok (.fallback info)) n found) : info.approximate = true := by
  rcases found with c | (_ | ⟨scope, scopes⟩)
  · cases h.1
  · obtain ⟨-, asked, retried, info?, -, htype, hresult⟩ := h
    cases info? with
    | error c => cases hresult
    | ok info' =>
      cases hresult
      exact htype.approximate
  · cases h.1

end

/-- A session's sync is one of what it tracks. -/
theorem run_tracked_of_syncTo {b : Buffer} {target : Position} {s s₁ : Session σ}
    {report : SyncReport} (h : (syncTo b target).run s = (.ok report, s₁)) :
    (Sync.syncTo b target).run s.toTracked = (.ok report, s₁.toTracked) := by
  rw [run_syncTo] at h
  have hresult : ((Sync.syncTo b target).run s.toTracked).1 = .ok report := congrArg Prod.fst h
  have htracked : ((Sync.syncTo b target).run s.toTracked).2 = s₁.toTracked :=
    congrArg (fun r => r.2.toTracked) h
  exact Prod.ext hresult htracked

end Session

end EditorBridge
