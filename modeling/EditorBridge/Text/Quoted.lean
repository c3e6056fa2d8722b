import EditorBridge.Text.Numeral

/-!
# Quoted texts

A text between quotation marks, in which quotation marks, backslashes and characters that cannot
be seen are written as escapes, so that a quoted text is never longer than a line.
-/

namespace EditorBridge.Text

def hexDigits (n : Nat) : String := String.ofList (Nat.toDigits 16 n)

def numberedEscape (c : Char) : String := "\\u\x7b" ++ hexDigits c.toNat ++ "\x7d"

def isControl (c : Char) : Bool := c.toNat < 0x20 || (0x7f ≤ c.toNat && c.toNat < 0xa0)

/-- The blocks of marks that are drawn on the character before them, of characters that only
direct how others are shown, and of characters for private use. -/
def unseenBlocks : List (Nat × Nat) :=
  [(0xad, 0xad), (0x300, 0x36f), (0x483, 0x489), (0x591, 0x5bd), (0x600, 0x605), (0x64b, 0x65f),
    (0x200b, 0x200f), (0x2028, 0x202e), (0x2060, 0x206f), (0x20d0, 0x20f0), (0xe000, 0xf8ff),
    (0xfe00, 0xfe0f), (0xfe20, 0xfe2f), (0xfeff, 0xfeff), (0xfff9, 0xfffb), (0xe0000, 0x10ffff)]

def isUnseen (c : Char) : Bool :=
  isControl c || (isBlank c && c != ' ') ||
    unseenBlocks.any fun (first, last) => first ≤ c.toNat && c.toNat ≤ last

/-- A character of a quoted text. -/
def quoteChar (c : Char) : String :=
  match c with
  | '"' => "\\\""
  | '\\' => "\\\\"
  | '\n' => "\\n"
  | '\r' => "\\r"
  | '\t' => "\\t"
  | '\x00' => "\\0"
  | c => if isUnseen c then numberedEscape c else c.toString

def quote (text : String) : String := "\"" ++ String.join (text.toList.map quoteChar) ++ "\""

def quoteList (texts : List String) : String :=
  "[" ++ String.intercalate ", " (texts.map quote) ++ "]"

end EditorBridge.Text
