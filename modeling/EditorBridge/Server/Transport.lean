import EditorBridge.Server.Command
import EditorBridge.Server.Error

/-!
# Exchanges with the server

An exchange is a step of a conversation: it takes the state of the conversation, may fail, and
leaves a new state either way. What an exchange did before it failed stays done.

A transport is a state that commands can be sent through, one at a time. It counts the server
processes it has had: nothing that was told to an earlier process may be relied upon.

The main statements are the equations of `Exchange.run`, which say what an exchange does to a
state.
-/

namespace EditorBridge

/-- A step of a conversation with state `σ` that answers a value or fails. -/
abbrev Exchange (σ : Type) := ExceptT BridgeError (StateM σ)

namespace Exchange

variable {σ τ α β : Type}

/-- What an exchange answers in a state, and the state it leaves. -/
def run (x : Exchange σ α) (s : σ) : Except BridgeError α × σ := StateT.run (ExceptT.run x) s

/-- The exchange that does what a function says. -/
def ofFun (f : σ → Except BridgeError α × σ) : Exchange σ α := ExceptT.mk f

/-- Lets an exchange act on a part of a larger state. -/
def zoom (get : τ → σ) (set : σ → τ → τ) (x : Exchange σ α) : Exchange τ α :=
  ofFun fun t => ((x.run (get t)).1, set (x.run (get t)).2 t)

/-- The exchange that only changes the state. -/
def change (f : σ → σ) : Exchange σ Unit := ofFun fun s => (.ok (), f s)

/-- The exchange that only looks at the state. -/
def look (f : σ → α) : Exchange σ α := ofFun fun s => (.ok (f s), s)

/-- Answers nothing where the server rejected the command. Other failures stay failures. -/
def unlessRejected (x : Exchange σ α) : Exchange σ (Option α) :=
  ofFun fun s =>
    match x.run s with
    | (.ok a, s') => (.ok (some a), s')
    | (.error (.rejected _), s') => (.ok none, s')
    | (.error e, s') => (.error e, s')

@[simp] theorem run_ofFun (f : σ → Except BridgeError α × σ) (s : σ) : (ofFun f).run s = f s := rfl

@[simp] theorem run_pure (a : α) (s : σ) : (pure a : Exchange σ α).run s = (.ok a, s) := rfl

@[simp] theorem run_throw (e : BridgeError) (s : σ) :
    (throw e : Exchange σ α).run s = (.error e, s) := rfl

theorem run_bind (x : Exchange σ α) (f : α → Exchange σ β) (s : σ) :
    (x >>= f).run s =
      match x.run s with
      | (.ok a, s') => (f a).run s'
      | (.error e, s') => (.error e, s') := by
  simp only [run, ExceptT.run_bind, StateT.run_bind]
  change (match StateT.run (ExceptT.run x) s with | (r, s') => _) = _
  rcases StateT.run (ExceptT.run x) s with ⟨r | r, s'⟩ <;> rfl

@[simp] theorem run_zoom (get : τ → σ) (set : σ → τ → τ) (x : Exchange σ α) (t : τ) :
    (zoom get set x).run t = ((x.run (get t)).1, set (x.run (get t)).2 t) := rfl

@[simp] theorem run_change (f : σ → σ) (s : σ) : (change f).run s = (.ok (), f s) := rfl

@[simp] theorem run_look (f : σ → α) (s : σ) : (look f).run s = (.ok (f s), s) := rfl

end Exchange

/-- A state that carries commands to a server and brings back their outcomes. -/
class Transport (σ : Type) where
  /-- Sends one command and receives its outcome. -/
  call : Command → Exchange σ Outcome
  /-- The number of the current server process. -/
  generation : σ → Nat

section

variable {σ α : Type} [Transport σ]

/-- Sends a command and reads the payload of its answer. -/
def request (command : Command) (decode : Json → Option α) : Exchange σ α := do
  match ← Transport.call command with
  | .rejected r => throw (.rejected r)
  | .accepted payload =>
    match decode payload with
    | none => throw (.unexpectedPayload command.label)
    | some a => pure a

/-- Sends a command that must be accepted, whatever its payload. -/
def execute (command : Command) : Exchange σ Unit := request command fun _ => some ()

end

end EditorBridge
