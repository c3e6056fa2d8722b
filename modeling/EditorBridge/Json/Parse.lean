import EditorBridge.Json.Token

/-!
# Reading JSON

The tokens of a text are read one after the other. The containers that are still open form a
stack, the innermost on top, with the items each of them has received so far. A text is one
value; containers may be nested up to `maxDepth` deep.
-/

namespace EditorBridge.Json

/-- A container that is still open, with what it holds so far, the latest first. -/
inductive Level where
  | array (items : List Json)
  /-- The name is that of the field whose value is being read. -/
  | object (fields : List (String × Json)) (name : String)

/-- What may come next. -/
inductive Want where
  | value
  /-- The first item of an array, or its end. -/
  | firstItem
  /-- The first name of an object, or its end. -/
  | firstName
  | name
  | colon
  /-- A comma, or the end of the container. -/
  | more
deriving DecidableEq

/-- How far the reading has come. -/
inductive Progress where
  | reading (want : Want) (stack : List Level)
  | done (v : Json)

/-- How deep containers may be nested. -/
def maxDepth : Nat := 127

namespace Progress

def initial : Progress := .reading .value []

/-- Hands a complete value to the innermost container. -/
def supply (v : Json) : List Level → Progress
  | [] => .done v
  | .array items :: stack => .reading .more (.array (v :: items) :: stack)
  | .object fields name :: stack => .reading .more (.object ((name, v) :: fields) name :: stack)

/-- Opens a container. -/
def push (want : Want) (level : Level) (stack : List Level) : Option Progress :=
  if stack.length < maxDepth then some (.reading want (level :: stack)) else none

def beginValue (stack : List Level) : Token → Option Progress
  | .scalar v => some (supply v stack)
  | .string s => some (supply (.string s) stack)
  | .openArray => push .firstItem (.array []) stack
  | .openObject => push .firstName (.object [] "") stack
  | _ => none

def closeArray : List Level → Option Progress
  | .array items :: stack => some (supply (.array items.reverse) stack)
  | _ => none

def closeObject : List Level → Option Progress
  | .object fields _ :: stack => some (supply (ofFields fields.reverse) stack)
  | _ => none

def takeName (name : String) : List Level → Option Progress
  | .object fields _ :: stack => some (.reading .colon (.object fields name :: stack))
  | _ => none

/-- What a comma announces. -/
def afterComma : List Level → Option Progress
  | .array items :: stack => some (.reading .value (.array items :: stack))
  | .object fields name :: stack => some (.reading .name (.object fields name :: stack))
  | [] => none

def step : Progress → Token → Option Progress
  | .done _, _ => none
  | .reading .value stack, token => beginValue stack token
  | .reading .firstItem stack, .closeArray => closeArray stack
  | .reading .firstItem stack, token => beginValue stack token
  | .reading .firstName stack, .closeObject => closeObject stack
  | .reading .firstName stack, .string name => takeName name stack
  | .reading .name stack, .string name => takeName name stack
  | .reading .colon stack, .colon => some (.reading .value stack)
  | .reading .more stack, .comma => afterComma stack
  | .reading .more stack, .closeArray => closeArray stack
  | .reading .more stack, .closeObject => closeObject stack
  | .reading _ _, _ => none

def run (p : Progress) : List Token → Option Progress
  | [] => some p
  | token :: tokens =>
    match p.step token with
    | none => none
    | some next => next.run tokens

def value? : Progress → Option Json
  | .done v => some v
  | .reading _ _ => none

end Progress

def ofChars? (cs : List Char) : Option Json :=
  (tokens? cs).bind fun tokens => (Progress.initial.run tokens).bind Progress.value?

def parse (text : String) : Option Json := ofChars? text.toList

end EditorBridge.Json
