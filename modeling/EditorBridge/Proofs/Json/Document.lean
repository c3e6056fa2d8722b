import EditorBridge.Json.Parse

/-!
# JSON texts and what they stand for

A document is a JSON text taken apart, but not yet asked what it stands for: a number is its
literal, and a string is a row of letters, each of them a character or the code unit that an
escape by number names. A text is written in lexemes with white space between them (`IsSpelled`),
and the lexemes of a document are a function of it (`Document.lexemes`).

Not every document stands for a value (`Document.value?`). A number can be too large, and one half
of a surrogate pair can stand alone. How deep the containers of a document are nested is its
`Document.depth`.
-/

namespace EditorBridge.Json

/-! ## Strings -/

/-- A letter of a string. -/
inductive Letter where
  | char (c : Char)
  | unit (n : Nat)
deriving DecidableEq

/-- The character that two surrogates stand for. -/
def pairChar (high low : Nat) : Char :=
  Char.ofNat (0x10000 + (high - 0xd800) * 0x400 + (low - 0xdc00))

namespace Letter

/-- How a letter is written: as itself, or as an escape. -/
inductive IsWritten : Letter → List Char → Prop
  | plain {c : Char} : c ≠ '"' → c ≠ '\\' → 0x20 ≤ c.toNat → IsWritten (.char c) [c]
  | escape {e c : Char} : unescape? e = some c → IsWritten (.char c) ['\\', e]
  | unicode {a b c d : Char} {i j k l : Nat} :
      Text.hexValue? a = some i → Text.hexValue? b = some j → Text.hexValue? c = some k →
      Text.hexValue? d = some l →
      IsWritten (.unit (16 * (16 * (16 * i + j) + k) + l)) ['\\', 'u', a, b, c, d]

/-- How letters are written one after the other. -/
inductive AreWritten : List Letter → List Char → Prop
  | nil : AreWritten [] []
  | cons {letter : Letter} {letters : List Letter} {part rest : List Char} :
      letter.IsWritten part → AreWritten letters rest →
      AreWritten (letter :: letters) (part ++ rest)

/-- The characters that letters stand for. The two halves of a surrogate pair are one character,
and neither of them stands for anything without the other. -/
def chars? : List Letter → Option (List Char)
  | [] => some []
  | .char c :: rest => (chars? rest).map (c :: ·)
  | .unit n :: rest =>
    if isHigh n then
      match rest with
      | .unit low :: rest =>
        if isLow low then (chars? rest).map (pairChar n low :: ·) else none
      | _ => none
    else if isLow n then none
    else (chars? rest).map (Char.ofNat n :: ·)

def text? (letters : List Letter) : Option String := (chars? letters).map String.ofList

end Letter

/-! ## Numbers -/

namespace Literal

def AreDigits (cs : List Char) : Prop := ∀ c ∈ cs, c.isDigit = true

/-- An integer part: digits that begin with a zero only if there is nothing else. -/
def IsInteger (cs : List Char) : Prop :=
  AreDigits cs ∧ (cs = ['0'] ∨ ∃ c rest, cs = c :: rest ∧ c ≠ '0')

/-- A fraction, if there is one: a point and digits. -/
inductive IsFraction : List Char → List Char → Prop
  | absent : IsFraction [] []
  | present {digits : List Char} :
      digits ≠ [] → AreDigits digits → IsFraction digits ('.' :: digits)

/-- The sign of an exponent. -/
inductive IsSign : Bool → List Char → Prop
  | none : IsSign false []
  | plus : IsSign false ['+']
  | minus : IsSign true ['-']

/-- An exponent, if there is one: a mark, a sign and digits. -/
inductive IsExponent : Option (Bool × List Char) → List Char → Prop
  | absent : IsExponent none []
  | present {mark : Char} {negative : Bool} {sign digits : List Char} :
      mark = 'e' ∨ mark = 'E' → IsSign negative sign → digits ≠ [] → AreDigits digits →
      IsExponent (some (negative, digits)) (mark :: (sign ++ digits))

/-- What is written of a minus sign, if there is one. -/
def minus (negative : Bool) : List Char := if negative then ['-'] else []

/-- How a number is written. -/
inductive IsWritten (l : Literal) : List Char → Prop
  | intro {fraction exponent : List Char} :
      IsInteger l.whole → IsFraction l.fraction fraction → IsExponent l.exponent exponent →
      IsWritten l (minus l.negative ++ (l.whole ++ (fraction ++ exponent)))

end Literal

/-! ## Lexemes -/

/-- A number, a truth value or null. -/
inductive Scalar where
  | null
  | bool (b : Bool)
  | number (l : Literal)

namespace Scalar

inductive IsWritten : Scalar → List Char → Prop
  | null : IsWritten .null ['n', 'u', 'l', 'l']
  | true : IsWritten (.bool true) ['t', 'r', 'u', 'e']
  | false : IsWritten (.bool false) ['f', 'a', 'l', 's', 'e']
  | number {l : Literal} {cs : List Char} : l.IsWritten cs → IsWritten (.number l) cs

def value? : Scalar → Option Json
  | .null => some .null
  | .bool b => some (.bool b)
  | .number l => l.value?.map .number

end Scalar

/-- The pieces that a JSON text is written in. -/
inductive Lexeme where
  | openArray
  | closeArray
  | openObject
  | closeObject
  | comma
  | colon
  | string (letters : List Letter)
  | scalar (s : Scalar)

inductive Lexeme.IsWritten : Lexeme → List Char → Prop
  | openArray : IsWritten .openArray ['[']
  | closeArray : IsWritten .closeArray [']']
  | openObject : IsWritten .openObject ['\x7b']
  | closeObject : IsWritten .closeObject ['\x7d']
  | comma : IsWritten .comma [',']
  | colon : IsWritten .colon [':']
  | string {letters : List Letter} {body : List Char} :
      Letter.AreWritten letters body → IsWritten (.string letters) ('"' :: (body ++ ['"']))
  | scalar {s : Scalar} {cs : List Char} : s.IsWritten cs → IsWritten (.scalar s) cs

/-- A text is written in some lexemes, with white space between them and at its ends. -/
inductive IsSpelled : List Lexeme → List Char → Prop
  | nil : IsSpelled [] []
  | space {c : Char} {lexemes : List Lexeme} {cs : List Char} :
      isSpace c = true → IsSpelled lexemes cs → IsSpelled lexemes (c :: cs)
  | cons {x : Lexeme} {lexemes : List Lexeme} {part rest : List Char} :
      x.IsWritten part → IsSpelled lexemes rest → IsSpelled (x :: lexemes) (part ++ rest)

theorem isSpelled_singleton {x : Lexeme} {cs : List Char} (h : x.IsWritten cs) :
    IsSpelled [x] cs := by
  rw [← List.append_nil cs]
  exact .cons h .nil

theorem IsSpelled.append {first rest : List Lexeme} {cs tail : List Char} (h : IsSpelled first cs)
    (hrest : IsSpelled rest tail) : IsSpelled (first ++ rest) (cs ++ tail) := by
  induction h with
  | nil => exact hrest
  | space hspace _ ih => exact .space hspace ih
  | cons hx _ ih =>
    rw [List.append_assoc]
    exact .cons hx ih

/-! ## Documents -/

/-- A JSON text, taken apart. -/
inductive Document where
  | scalar (s : Scalar)
  | string (letters : List Letter)
  | array (items : List Document)
  | object (fields : List (List Letter × Document))

/-- A comma, unless the container was just opened. -/
def commaLexeme (first : Bool) : List Lexeme := if first then [] else [.comma]

namespace Document

mutual

/-- The lexemes that a document is written in. -/
def lexemes : Document → List Lexeme
  | .scalar s => [.scalar s]
  | .string letters => [.string letters]
  | .array items => .openArray :: (itemLexemes true items ++ [.closeArray])
  | .object fields => .openObject :: (fieldLexemes true fields ++ [.closeObject])

def itemLexemes : Bool → List Document → List Lexeme
  | _, [] => []
  | first, item :: items => commaLexeme first ++ (lexemes item ++ itemLexemes false items)

def fieldLexemes : Bool → List (List Letter × Document) → List Lexeme
  | _, [] => []
  | first, (name, value) :: fields =>
    commaLexeme first ++ (.string name :: .colon :: (lexemes value ++ fieldLexemes false fields))

end

mutual

/-- How deep containers are nested in a document. -/
def depth : Document → Nat
  | .scalar _ => 0
  | .string _ => 0
  | .array items => itemDepth items + 1
  | .object fields => fieldDepth fields + 1

def itemDepth : List Document → Nat
  | [] => 0
  | item :: items => max (depth item) (itemDepth items)

def fieldDepth : List (List Letter × Document) → Nat
  | [] => 0
  | (_, value) :: fields => max (depth value) (fieldDepth fields)

end

mutual

/-- The value that a document stands for. -/
def value? : Document → Option Json
  | .scalar s => s.value?
  | .string letters => (Letter.text? letters).map .string
  | .array items => (itemValues? items).map .array
  | .object fields => (fieldValues? fields).map ofFields

def itemValues? : List Document → Option (List Json)
  | [] => some []
  | item :: items =>
    (value? item).bind fun v => (itemValues? items).map (v :: ·)

def fieldValues? : List (List Letter × Document) → Option (List (String × Json))
  | [] => some []
  | (name, value) :: fields =>
    (Letter.text? name).bind fun text =>
      (value? value).bind fun v => (fieldValues? fields).map ((text, v) :: ·)

end

/-- How a document is written. -/
def IsWritten (doc : Document) (cs : List Char) : Prop := IsSpelled doc.lexemes cs

end Document

end EditorBridge.Json
