import EditorBridge.Answer.Place

/-!
# Diagnostics in JSON

A diagnostic is one entry of the server's list of errors: its category, a message and, if the
server knows them, the place where it starts and the place where it ends. Categories that the
bridge does not know are read as `unknown`.
-/

namespace EditorBridge

inductive Category where
  | type
  | parser
  | warning
  | env
  | unknown
deriving DecidableEq, Inhabited

namespace Category

def name : Category → String
  | .type => "type"
  | .parser => "parser"
  | .warning => "warning"
  | .env => "env"
  | .unknown => "unknown"

def ofName (name : String) : Category :=
  if name = "type" then .type
  else if name = "parser" then .parser
  else if name = "warning" then .warning
  else if name = "env" then .env
  else .unknown

/-- Type and parser errors are errors; everything else is advice. -/
def isError : Category → Bool
  | .type | .parser => true
  | _ => false

def toJson (c : Category) : Json := .string c.name

def ofJson? (v : Json) : Option Category := v.variant?.map ofName

end Category

/-- One entry of the server's list of errors. -/
structure Diagnostic where
  category : Category
  message : String
  start : Option Position
  stop : Option Position
deriving DecidableEq, Inhabited

namespace Diagnostic

/-- Writes a diagnostic. A place that is not known is left out. -/
def toJson (d : Diagnostic) : Json :=
  .object (Json.optionalField "end" Position.toJson d.stop ++ [("message", .string d.message)] ++
    Json.optionalField "start" Position.toJson d.start ++ [("type", d.category.toJson)])

def ofJson? (v : Json) : Option Diagnostic :=
  match v.record? ["type", "message", "start", "end"] with
  | some [category, message, start, stop] => do
    let category ← Json.required Category.ofJson? category
    let message ← Json.required Json.text? message
    let start ← Json.orElse none (Json.nullable? Position.ofJson?) start
    let stop ← Json.orElse none (Json.nullable? Position.ofJson?) stop
    some ⟨category, message, start, stop⟩
  | _ => none

end Diagnostic

end EditorBridge
