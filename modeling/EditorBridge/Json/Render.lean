import EditorBridge.Json.Basic

/-!
# Writing JSON

A value is written on one line without spaces. Inside a string only the quotation mark, the
backslash and the characters below the space are escaped, so the written form never holds a
line feed.

`emit v out` writes `v` in front of `out`, where the text written so far stands backwards: the
last character first. `render` turns the text around at the end.
-/

namespace EditorBridge.Json

def hexDigit (n : Nat) : Char :=
  if n < 10 then Char.ofNat ('0'.toNat + n) else Char.ofNat ('a'.toNat + (n - 10))

/-- The escape of a character below the space. -/
def escapeControl (c : Char) : List Char :=
  match c.toNat with
  | 8 => ['\\', 'b']
  | 9 => ['\\', 't']
  | 10 => ['\\', 'n']
  | 12 => ['\\', 'f']
  | 13 => ['\\', 'r']
  | n => ['\\', 'u', '0', '0', hexDigit (n / 16), hexDigit (n % 16)]

/-- How a character of a string is written. -/
def escape (c : Char) : List Char :=
  if c = '"' then ['\\', '"']
  else if c = '\\' then ['\\', '\\']
  else if c.toNat < 0x20 then escapeControl c
  else [c]

def emitString (s : String) (out : List Char) : List Char :=
  '"' :: s.toList.foldl (fun out c => (escape c).reverse ++ out) ('"' :: out)

def Number.render : Number → List Char
  | .integer n => (toString n).toList
  | .double x => x.render

/-- A comma, unless the container was just opened. -/
def emitComma (first : Bool) (out : List Char) : List Char := if first then out else ',' :: out

mutual

/-- Writes a value in front of a text that stands backwards. -/
def emit : Json → List Char → List Char
  | .null, out => 'l' :: 'l' :: 'u' :: 'n' :: out
  | .bool true, out => 'e' :: 'u' :: 'r' :: 't' :: out
  | .bool false, out => 'e' :: 's' :: 'l' :: 'a' :: 'f' :: out
  | .number n, out => n.render.reverse ++ out
  | .string s, out => emitString s out
  | .array items, out => ']' :: emitItems true items ('[' :: out)
  | .object fields, out => '\x7d' :: emitFields true fields ('\x7b' :: out)

/-- Writes the items of an array with commas between them. -/
def emitItems : Bool → List Json → List Char → List Char
  | _, [], out => out
  | first, item :: items, out => emitItems false items (emit item (emitComma first out))

/-- Writes the fields of an object with commas between them. -/
def emitFields : Bool → List (String × Json) → List Char → List Char
  | _, [], out => out
  | first, (name, value) :: fields, out =>
    emitFields false fields (emit value (':' :: emitString name (emitComma first out)))

end

def render (v : Json) : String := String.ofList (v.emit []).reverse

end EditorBridge.Json
