import EditorBridge.Json.Render

/-!
# Outcomes

The server answers every command with one array: a tag and, usually, a payload. The tag `return`
accepts the command, the tags `failure`, `error` and `exception` reject it. Anything else breaks
the protocol.
-/

namespace EditorBridge

inductive RejectionKind where
  /-- The server does not understand the request. -/
  | failure
  /-- An error with a message. -/
  | error
  /-- An exception inside the server. -/
  | exception
deriving DecidableEq, Inhabited

def RejectionKind.tag : RejectionKind → String
  | .failure => "failure"
  | .error => "error"
  | .exception => "exception"

structure Rejection where
  kind : RejectionKind
  payload : Json

inductive Outcome where
  | accepted (payload : Json)
  | rejected (r : Rejection)

/-- An answer that breaks the protocol. -/
inductive Violation where
  | notAnArray (answer : Json)
  | badArity (count : Nat)
  | tagNotString (tag : Json)
  | unknownTag (tag : String)

namespace Violation

def message : Violation → String
  | .notAnArray answer => "response is not a JSON array: " ++ answer.render
  | .badArity count => "response array has " ++ toString count ++ " elements, expected 1 or 2"
  | .tagNotString tag => "response tag is not a string: " ++ tag.render
  | .unknownTag tag => "unknown response tag '" ++ tag ++ "'"

end Violation

namespace Outcome

/-- The outcome with a given tag. -/
def ofTag (tag : String) (payload : Json) : Except Violation Outcome :=
  if tag = "return" then .ok (.accepted payload)
  else if tag = "failure" then .ok (.rejected ⟨.failure, payload⟩)
  else if tag = "error" then .ok (.rejected ⟨.error, payload⟩)
  else if tag = "exception" then .ok (.rejected ⟨.exception, payload⟩)
  else .error (.unknownTag tag)

/-- Reads an answer. A missing payload is null. -/
def ofFrame : Json → Except Violation Outcome
  | .array [.string tag] => ofTag tag .null
  | .array [.string tag, payload] => ofTag tag payload
  | .array [tag] => .error (.tagNotString tag)
  | .array [tag, _] => .error (.tagNotString tag)
  | .array items => .error (.badArity items.length)
  | answer => .error (.notAnArray answer)

/-- The array of an answer. -/
def toFrame : Outcome → Json
  | .accepted payload => .array [.string "return", payload]
  | .rejected r => .array [.string r.kind.tag, r.payload]

def isAccepted : Outcome → Bool
  | .accepted _ => true
  | .rejected _ => false

/-- The line that carries an answer: the array and a line feed. -/
def line (o : Outcome) : String := o.toFrame.render ++ "\n"

end Outcome

end EditorBridge
