import EditorBridge.Text.Numeral

/-!
# Settings in TOML

The part of TOML 1.1 in which settings are written: pairs of a key and a value, one on a line,
with blank lines and comments among them. A value is a string of any of the four kinds, a truth
value, an integer, or a list of strings that may go over several lines. Tables, dotted keys and
other kinds of values are well-formed TOML too, but no setting is written with them, so they are
refused here.

Every reader takes a text and answers what it has read and the rest of the text. A reader that
repeats itself also takes a bound on its steps; one more than the length of the text is enough.
-/

namespace EditorBridge.Toml

open Text

inductive Value where
  | text (s : String)
  | truth (b : Bool)
  | integer (n : Int)
  | texts (list : List String)
deriving DecidableEq

/-! ## Blanks and comments -/

/-- The blanks inside a line. -/
def isBlank (c : Char) : Bool := c == ' ' || c == '\t'

def skipBlanks (cs : List Char) : List Char := cs.dropWhile isBlank

/-- The characters that comments and strings may hold: no control character but the tab. -/
def isPlain (c : Char) : Bool := c == '\t' || (0x20 ≤ c.toNat && c.toNat != 0x7f)

/-- The text after a line end. -/
def newline? : List Char → Option (List Char)
  | '\n' :: rest => some rest
  | '\r' :: '\n' :: rest => some rest
  | _ => none

/-- The text after a comment, if there is one. -/
def skipComment (cs : List Char) : List Char :=
  match cs with
  | '#' :: rest => rest.dropWhile isPlain
  | cs => cs

/-- The text after the rest of a line, which holds nothing but blanks and a comment. -/
def endLine? (cs : List Char) : Option (List Char) :=
  match skipComment (skipBlanks cs) with
  | [] => some []
  | cs => newline? cs

/-- The text after blanks, comments and line ends. -/
def skipLines : Nat → List Char → List Char
  | 0, cs => cs
  | fuel + 1, cs =>
    match newline? (skipComment (skipBlanks cs)) with
    | some rest => skipLines fuel rest
    | none => skipBlanks cs

/-! ## Strings -/

/-- Reads a number of hexadecimal digits. -/
def hex? : Nat → Nat → List Char → Option (Nat × List Char)
  | 0, n, cs => some (n, cs)
  | _ + 1, _, [] => none
  | digits + 1, n, c :: cs => (hexValue? c).bind fun d => hex? digits (16 * n + d) cs

def scalar? (digits : Nat) (cs : List Char) : Option (Char × List Char) :=
  (hex? digits 0 cs).bind fun (n, rest) =>
    if n.isValidChar then some (Char.ofNat n, rest) else none

/-- Reads what follows the backslash of an escape. -/
def escape? : List Char → Option (Char × List Char)
  | 'b' :: rest => some ('\x08', rest)
  | 't' :: rest => some ('\t', rest)
  | 'n' :: rest => some ('\n', rest)
  | 'f' :: rest => some ('\x0c', rest)
  | 'r' :: rest => some ('\r', rest)
  | 'e' :: rest => some ('\x1b', rest)
  | '"' :: rest => some ('"', rest)
  | '\\' :: rest => some ('\\', rest)
  | 'x' :: rest => scalar? 2 rest
  | 'u' :: rest => scalar? 4 rest
  | 'U' :: rest => scalar? 8 rest
  | _ => none

/-- Reads the rest of a string on one line. The characters read stand backwards in `seen`. Where
`escapes` is false a backslash is a character like any other. -/
def oneLine? (quote : Char) (escapes : Bool) :
    Nat → List Char → List Char → Option (String × List Char)
  | 0, _, _ => none
  | _ + 1, _, [] => none
  | fuel + 1, seen, c :: rest =>
    if c = quote then some (String.ofList seen.reverse, rest)
    else if c = '\\' ∧ escapes then
      (escape? rest).bind fun (c, rest) => oneLine? quote escapes fuel (c :: seen) rest
    else if isPlain c then oneLine? quote escapes fuel (c :: seen) rest
    else none

/-- The text after blanks and line ends. -/
def skipBlankLines : Nat → List Char → List Char
  | 0, cs => cs
  | fuel + 1, cs =>
    match newline? (skipBlanks cs) with
    | some rest => skipBlankLines fuel rest
    | none => skipBlanks cs

/-- The text after a line end and all blanks and line ends that follow, if a line ends here. -/
def continuation? (fuel : Nat) (cs : List Char) : Option (List Char) :=
  (newline? (skipBlanks cs)).map (skipBlankLines fuel)

/-- Reads the rest of a string on several lines. Up to two quotation marks in a row belong to the
string, also directly before the three that end it. -/
def manyLines? (quote : Char) (escapes : Bool) :
    Nat → List Char → List Char → Option (String × List Char)
  | 0, _, _ => none
  | _ + 1, _, [] => none
  | fuel + 1, seen, c :: rest =>
    if c = quote then
      let marks := ((c :: rest).takeWhile (· = quote)).length
      let after := (c :: rest).dropWhile (· = quote)
      if marks < 3 then
        manyLines? quote escapes fuel (List.replicate marks quote ++ seen) after
      else if marks ≤ 5 then
        some (String.ofList (List.replicate (marks - 3) quote ++ seen).reverse, after)
      else none
    else if c = '\\' ∧ escapes then
      match continuation? fuel rest with
      | some rest => manyLines? quote escapes fuel seen rest
      | none =>
        (escape? rest).bind fun (c, rest) => manyLines? quote escapes fuel (c :: seen) rest
    else if c = '\n' then manyLines? quote escapes fuel ('\n' :: seen) rest
    else if c = '\r' then
      match rest with
      | '\n' :: rest => manyLines? quote escapes fuel ('\n' :: '\r' :: seen) rest
      | _ => none
    else if isPlain c then manyLines? quote escapes fuel (c :: seen) rest
    else none

/-- The text without a line end at its beginning. -/
def dropNewline (cs : List Char) : List Char := (newline? cs).getD cs

/-- Reads a string that fits on one line. -/
def keyString? (fuel : Nat) : List Char → Option (String × List Char)
  | '"' :: rest => oneLine? '"' true fuel [] rest
  | '\'' :: rest => oneLine? '\'' false fuel [] rest
  | _ => none

def string? (fuel : Nat) : List Char → Option (String × List Char)
  | '"' :: '"' :: '"' :: rest => manyLines? '"' true fuel [] (dropNewline rest)
  | '\'' :: '\'' :: '\'' :: rest => manyLines? '\'' false fuel [] (dropNewline rest)
  | cs => keyString? fuel cs

/-! ## Integers -/

/-- The digits of a numeral in which underscores may stand between digits. -/
def underscored? (isDigit : Char → Bool) (cs : List Char) : Option (List Char) :=
  let groups := cs.splitOn '_'
  if groups.all fun g => g ≠ [] ∧ g.all isDigit then some groups.flatten else none

def inBase (base : Nat) (digits : List Char) : Nat :=
  digits.foldl (fun n c => base * n + (hexValue? c).getD 0) 0

/-- Reads a numeral without leading zeros. -/
def decimal? (cs : List Char) : Option Nat :=
  (underscored? Char.isDigit cs).bind fun digits =>
    if 1 < digits.length ∧ digits.head? = some '0' then none else some (inBase 10 digits)

/-- Reads an integer: decimal with an optional sign, or hexadecimal, octal or binary. -/
def integer? : List Char → Option Int
  | '+' :: cs => (decimal? cs).map Int.ofNat
  | '-' :: cs => (decimal? cs).map fun n => -(n : Int)
  | '0' :: 'x' :: cs =>
    (underscored? (fun c => (hexValue? c).isSome) cs).map fun digits => (inBase 16 digits : Int)
  | '0' :: 'o' :: cs =>
    (underscored? (fun c => '0' ≤ c ∧ c ≤ '7') cs).map fun digits => (inBase 8 digits : Int)
  | '0' :: 'b' :: cs =>
    (underscored? (fun c => c = '0' ∨ c = '1') cs).map fun digits => (inBase 2 digits : Int)
  | cs => (decimal? cs).map Int.ofNat

/-! ## Values -/

/-- The characters of keys without quotation marks. -/
def isBare (c : Char) : Bool := c.isAlphanum || c == '_' || c == '-'

def word? (cs : List Char) : Option (Value × List Char) :=
  let word := cs.takeWhile fun c => isBare c || c == '+'
  let rest := cs.dropWhile fun c => isBare c || c == '+'
  if word = "true".toList then some (.truth true, rest)
  else if word = "false".toList then some (.truth false, rest)
  else (integer? word).map fun n => (.integer n, rest)

/-- Reads the rest of a list of strings. Those read stand backwards in `seen`. -/
def list? : Nat → List String → List Char → Option (Value × List Char)
  | 0, _, _ => none
  | fuel + 1, seen, cs =>
    match skipLines fuel cs with
    | ']' :: rest => some (.texts seen.reverse, rest)
    | cs =>
      (string? fuel cs).bind fun (s, rest) =>
        match skipLines fuel rest with
        | ',' :: rest => list? fuel (s :: seen) rest
        | ']' :: rest => some (.texts (s :: seen).reverse, rest)
        | _ => none

def value? (fuel : Nat) : List Char → Option (Value × List Char)
  | '[' :: rest => list? fuel [] rest
  | cs =>
    match string? fuel cs with
    | some (s, rest) => some (.text s, rest)
    | none => word? cs

def key? (fuel : Nat) (cs : List Char) : Option (String × List Char) :=
  match keyString? fuel cs with
  | some result => some result
  | none =>
    let name := cs.takeWhile isBare
    if name = [] then none else some (String.ofList name, cs.dropWhile isBare)

def pair? (fuel : Nat) (cs : List Char) : Option ((String × Value) × List Char) := do
  let (key, rest) ← key? fuel cs
  match skipBlanks rest with
  | '=' :: rest =>
    let (value, rest) ← value? fuel (skipBlanks rest)
    let rest ← endLine? rest
    some ((key, value), rest)
  | _ => none

def pairs? : Nat → List Char → Option (List (String × Value))
  | 0, _ => none
  | fuel + 1, cs =>
    match skipLines (fuel + 1) cs with
    | [] => some []
    | '#' :: rest => if rest.all isPlain then some [] else none
    | cs => (pair? (fuel + 1) cs).bind fun (pair, rest) => (pairs? fuel rest).map (pair :: ·)

/-- Reads a text of pairs, each key at most once. -/
def parse (text : String) : Option (List (String × Value)) :=
  let cs := match text.toList with
    | '\ufeff' :: rest => rest
    | cs => cs
  (pairs? (cs.length + 1) cs).bind fun pairs =>
    if (pairs.map Prod.fst).eraseDups.length = pairs.length then some pairs else none

end EditorBridge.Toml
