import EditorBridge.Json.Number

/-!
# Cutting JSON text into tokens

The text is read one character at a time. Between two characters the lexer remembers what it is
in the middle of (`Pending`) and the tokens it has completed. A word or a number ends at the
first character that cannot belong to it; a string ends at its quotation mark.

A string refuses raw control characters, unknown escapes and surrogates that stand alone; two
surrogate escapes in a row are one character.
-/

namespace EditorBridge.Json

/-- The pieces JSON text is made of. -/
inductive Token where
  | openArray
  | closeArray
  | openObject
  | closeObject
  | comma
  | colon
  | string (s : String)
  /-- A number, a truth value or null. -/
  | scalar (v : Json)

/-- What the lexer is in the middle of. The characters seen stand backwards. -/
inductive Pending where
  | nothing
  | word (seen : List Char)
  | number (seen : List Char)
  | text (seen : List Char)
  /-- After the backslash of an escape. -/
  | escape (seen : List Char)
  /-- Inside an escape by number: how many digits are missing, the value so far, and the high
  surrogate before it, if there was one. -/
  | unicode (seen : List Char) (missing : Nat) (value : Nat) (high : Option Nat)
  /-- After a high surrogate. -/
  | pair (seen : List Char) (high : Nat)
  /-- After a high surrogate and a backslash. -/
  | pairEscape (seen : List Char) (high : Nat)

/-- The four characters that may stand between tokens. -/
def isSpace (c : Char) : Bool := c == ' ' || c == '\n' || c == '\t' || c == '\r'

def isNumberChar (c : Char) : Bool :=
  c.isDigit || c == '-' || c == '+' || c == '.' || c == 'e' || c == 'E'

def word? : List Char → Option Json
  | ['n', 'u', 'l', 'l'] => some .null
  | ['t', 'r', 'u', 'e'] => some (.bool true)
  | ['f', 'a', 'l', 's', 'e'] => some (.bool false)
  | _ => none

/-- The character that a one-letter escape stands for. -/
def unescape? : Char → Option Char
  | '"' => some '"'
  | '\\' => some '\\'
  | '/' => some '/'
  | 'b' => some '\x08'
  | 'f' => some '\x0c'
  | 'n' => some '\n'
  | 'r' => some '\r'
  | 't' => some '\t'
  | _ => none

/-- Whether a code unit is the first half of a surrogate pair. -/
def isHigh (n : Nat) : Bool := 0xd800 ≤ n && n ≤ 0xdbff

/-- Whether a code unit is the second half of a surrogate pair. -/
def isLow (n : Nat) : Bool := 0xdc00 ≤ n && n ≤ 0xdfff

/-- What follows an escape by number whose four digits are complete. -/
def endUnicode (seen : List Char) (value : Nat) : Option Nat → Option Pending
  | none =>
    if isHigh value then some (.pair seen value)
    else if isLow value then none
    else some (.text (Char.ofNat value :: seen))
  | some high =>
    if isLow value then
      some (.text (Char.ofNat (0x10000 + (high - 0xd800) * 0x400 + (value - 0xdc00)) :: seen))
    else none

/-- What a character between tokens begins or completes. -/
def begin? (c : Char) : Option (Pending × Option Token) :=
  if isSpace c then some (.nothing, none)
  else if c = '"' then some (.text [], none)
  else if c = '[' then some (.nothing, some .openArray)
  else if c = ']' then some (.nothing, some .closeArray)
  else if c = '\x7b' then some (.nothing, some .openObject)
  else if c = '\x7d' then some (.nothing, some .closeObject)
  else if c = ',' then some (.nothing, some .comma)
  else if c = ':' then some (.nothing, some .colon)
  else if c.isDigit || c == '-' then some (.number [c], none)
  else if c.isLower then some (.word [c], none)
  else none

/-- What the lexer has done so far: the completed tokens stand backwards. -/
structure Lexer where
  pending : Pending
  tokens : List Token

namespace Lexer

def initial : Lexer := ⟨.nothing, []⟩

def begin (tokens : List Token) (c : Char) : Option Lexer :=
  match begin? c with
  | none => none
  | some (pending, none) => some ⟨pending, tokens⟩
  | some (pending, some token) => some ⟨pending, token :: tokens⟩

def step (l : Lexer) (c : Char) : Option Lexer :=
  match l.pending with
  | .nothing => begin l.tokens c
  | .word seen =>
    if c.isLower then some ⟨.word (c :: seen), l.tokens⟩
    else
      match word? seen.reverse with
      | none => none
      | some v => begin (.scalar v :: l.tokens) c
  | .number seen =>
    if isNumberChar c then some ⟨.number (c :: seen), l.tokens⟩
    else
      match Number.ofChars? seen.reverse with
      | none => none
      | some n => begin (.scalar (.number n) :: l.tokens) c
  | .text seen =>
    if c = '"' then some ⟨.nothing, .string (String.ofList seen.reverse) :: l.tokens⟩
    else if c = '\\' then some ⟨.escape seen, l.tokens⟩
    else if c.toNat < 0x20 then none
    else some ⟨.text (c :: seen), l.tokens⟩
  | .escape seen =>
    if c = 'u' then some ⟨.unicode seen 4 0 none, l.tokens⟩
    else
      match unescape? c with
      | none => none
      | some d => some ⟨.text (d :: seen), l.tokens⟩
  | .unicode seen missing value high =>
    match Text.hexValue? c with
    | none => none
    | some digit =>
      if missing ≤ 1 then
        match endUnicode seen (16 * value + digit) high with
        | none => none
        | some pending => some ⟨pending, l.tokens⟩
      else some ⟨.unicode seen (missing - 1) (16 * value + digit) high, l.tokens⟩
  | .pair seen high => if c = '\\' then some ⟨.pairEscape seen high, l.tokens⟩ else none
  | .pairEscape seen high =>
    if c = 'u' then some ⟨.unicode seen 4 0 (some high), l.tokens⟩ else none

def run (l : Lexer) : List Char → Option Lexer
  | [] => some l
  | c :: cs =>
    match l.step c with
    | none => none
    | some next => next.run cs

def finish (l : Lexer) : Option (List Token) :=
  match l.pending with
  | .nothing => some l.tokens.reverse
  | .word seen => (word? seen.reverse).map fun v => (Token.scalar v :: l.tokens).reverse
  | .number seen =>
    (Number.ofChars? seen.reverse).map fun n => (Token.scalar (.number n) :: l.tokens).reverse
  | _ => none

end Lexer

def tokens? (cs : List Char) : Option (List Token) := (Lexer.initial.run cs).bind Lexer.finish

end EditorBridge.Json
