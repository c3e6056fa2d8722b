import EditorBridge.Answer.Record

/-!
# Completion candidates in JSON

A candidate has a name. Its description, further information and kind are empty if the server
leaves them out.
-/

namespace EditorBridge

structure Completion where
  name : String
  desc : String
  info : String
  kind : String
deriving DecidableEq, Inhabited

namespace Completion

def toJson (c : Completion) : Json :=
  .object [("desc", .string c.desc), ("info", .string c.info), ("kind", .string c.kind),
    ("name", .string c.name)]

def ofJson? (v : Json) : Option Completion :=
  match v.record? ["name", "desc", "info", "kind"] with
  | some [name, desc, info, kind] => do
    let name ← Json.required Json.text? name
    let desc ← Json.orElse "" Json.text? desc
    let info ← Json.orElse "" Json.text? info
    let kind ← Json.orElse "" Json.text? kind
    some ⟨name, desc, info, kind⟩
  | _ => none

end Completion

end EditorBridge
