import EditorBridge.Server.Transport

/-!
# Recorded exchanges

A transport that keeps what was sent through it and what came back. It does to the transport
inside exactly what the commands would have done to it without a record.
-/

namespace EditorBridge

/-- A command that was sent, and what came of it. -/
structure Entry where
  command : Command
  answer : Except BridgeError Outcome
  /-- The number of the server process before the command. -/
  before : Nat
  /-- The number of the server process after the answer. -/
  after : Nat

/-- A transport and what was sent through it. -/
structure Recorded (σ : Type) where
  inner : σ
  /-- The entries, the latest first. -/
  entries : List Entry

namespace Recorded

variable {σ : Type}

def ofTransport (inner : σ) : Recorded σ := ⟨inner, []⟩

/-- What was sent, in its order. -/
def history (r : Recorded σ) : List Entry := r.entries.reverse

/-- The transport with its record erased. -/
def forget (r : Recorded σ) : Recorded σ := { r with entries := [] }

variable [Transport σ]

def call (command : Command) : Exchange (Recorded σ) Outcome :=
  .ofFun fun r =>
    let (answer, inner) := (Transport.call command).run r.inner
    let entry : Entry :=
      ⟨command, answer, Transport.generation r.inner, Transport.generation inner⟩
    (answer, ⟨inner, entry :: r.entries⟩)

instance : Transport (Recorded σ) where
  call := call
  generation r := Transport.generation r.inner

end Recorded

end EditorBridge
