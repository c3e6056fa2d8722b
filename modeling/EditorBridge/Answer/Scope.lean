import EditorBridge.Answer.Place

/-!
# Enclosing scopes in JSON

A scope is a span with the type of what it spans. It is written as one object that holds the ends
of the span and the type side by side, and only read from an object. A list of scopes may come
with its length in front of it.
-/

namespace EditorBridge

structure Scope where
  span : Span
  type : String
deriving DecidableEq, Inhabited

namespace Scope

def toJson (s : Scope) : Json :=
  .object [("end", s.span.stop.toJson), ("start", s.span.start.toJson), ("type", .string s.type)]

def ofJson? : Json → Option Scope
  | .object fields => do
    let start ← Json.required Position.ofJson? (fields.lookup "start")
    let stop ← Json.required Position.ofJson? (fields.lookup "end")
    let type ← Json.required Json.text? (fields.lookup "type")
    some ⟨⟨start, stop⟩, type⟩
  | _ => none

/-- The list of scopes in an answer that may put a number in front of it. -/
def withoutCount : Json → Json
  | .array [count, scopes] => if count.isNumber && scopes.isArray then scopes
    else .array [count, scopes]
  | v => v

/-- Reads a list of scopes, innermost first. -/
def listOfJson? (v : Json) : Option (List Scope) := (withoutCount v).listOf? ofJson?

end Scope

end EditorBridge
