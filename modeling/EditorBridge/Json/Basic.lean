import EditorBridge.Json.Binary64

/-!
# JSON values

A JSON value as the bridge keeps it. A number is an integer or a binary floating point number,
and the two never mix: `1` and `1.0` are different values. An object keeps its fields in the
order of their names, each name once; `Json.ofFields` brings a list of fields into this form,
the last field of a name winning.
-/

namespace EditorBridge

namespace Json

inductive Number where
  | integer (n : Int)
  | double (x : Binary64)
deriving DecidableEq

end Json

inductive Json where
  | null
  | bool (b : Bool)
  | number (n : Json.Number)
  | string (s : String)
  | array (items : List Json)
  | object (fields : List (String × Json))

namespace Json

instance : Inhabited Json := ⟨.null⟩

def ofNat (n : Nat) : Json := .number (.integer n)

/-- Whether a field may stand before another: names are ordered by their characters. -/
def fieldLe (a b : String × Json) : Bool := decide (a.1 ≤ b.1)

/-- Of neighbours with the same name only the last one stays. -/
def lastOfEachName (fields : List (String × Json)) : List (String × Json) :=
  fields.foldr (fun field rest =>
    match rest with
    | [] => [field]
    | next :: _ => if field.1 = next.1 then rest else field :: rest) []

def ofFields (fields : List (String × Json)) : Json :=
  .object (lastOfEachName (fields.mergeSort fieldLe))

/-- Puts a field in its place among the fields of an object. It replaces a field of its name. -/
def insertField (name : String) (value : Json) : List (String × Json) → List (String × Json)
  | [] => [(name, value)]
  | field :: rest =>
    if field.1 < name then field :: insertField name value rest
    else if field.1 = name then (name, value) :: rest
    else (name, value) :: field :: rest

/-- The value of a field, if the value is an object that has it. -/
def field? (name : String) : Json → Option Json
  | .object fields => fields.lookup name
  | _ => none

def text? : Json → Option String
  | .string s => some s
  | _ => none

def items? : Json → Option (List Json)
  | .array items => some items
  | _ => none

/-- A natural number up to `limit`. A floating point number is never one. -/
def natural? (limit : Nat) : Json → Option Nat
  | .number (.integer n) => if 0 ≤ n ∧ n ≤ limit then some n.toNat else none
  | _ => none

def isNumber : Json → Bool
  | .number _ => true
  | _ => false

def isArray : Json → Bool
  | .array _ => true
  | _ => false

/-- A list of values that can all be decoded. -/
def listOf? {α : Type} (decode : Json → Option α) (value : Json) : Option (List α) :=
  value.items?.bind (List.mapM decode)

def nullable? {α : Type} (decode : Json → Option α) : Json → Option (Option α)
  | .null => some none
  | value => (decode value).map some

def Number.isNonzero : Number → Bool
  | .integer n => n != 0
  | .double x => x.magnitude.significand != 0

/-- Null, false, zero and empty values are not truthy; everything else is. -/
def isTruthy : Json → Bool
  | .null => false
  | .bool b => b
  | .number n => n.isNonzero
  | .string s => s != ""
  | .array items => !items.isEmpty
  | .object fields => !fields.isEmpty

end Json

end EditorBridge
