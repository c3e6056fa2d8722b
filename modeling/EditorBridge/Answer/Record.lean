import EditorBridge.Json.Basic
import EditorBridge.Text.Numeral

/-!
# Records and variants in JSON

A record arrives as an object, whose further fields do not matter, or as an array of its fields
in their order, in which fields at the end may be missing. A variant without content arrives as
its name, or as an object whose only field has that name and is null.
-/

namespace EditorBridge.Json

/-- The fields of a record in the order of `names`, each of which may be missing. -/
def record? (names : List String) : Json → Option (List (Option Json))
  | .object fields => some (names.map fun name => fields.lookup name)
  | .array items =>
    if items.length ≤ names.length then
      some (items.map some ++ List.replicate (names.length - items.length) none)
    else none
  | _ => none

/-- The name of a variant without content. -/
def variant? : Json → Option String
  | .string name => some name
  | .object [(name, .null)] => some name
  | _ => none

/-- A field that must be present. -/
def required {α : Type} (decode : Json → Option α) (value : Option Json) : Option α :=
  value.bind decode

/-- A field that stands for `default` when it is missing. -/
def orElse {α : Type} (default : α) (decode : Json → Option α) : Option Json → Option α
  | none => some default
  | some value => decode value

/-- A field that is written only if it has a value. -/
def optionalField {α : Type} (name : String) (encode : α → Json) : Option α → List (String × Json)
  | none => []
  | some a => [(name, encode a)]

end EditorBridge.Json
