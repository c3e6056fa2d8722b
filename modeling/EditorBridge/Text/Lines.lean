/-!
# Lines of a text

Files and pipes carry bytes; a text is carried as UTF-8.

A text is cut into lines at its line feeds. A carriage return directly before a line feed
belongs to the line end; a carriage return anywhere else is an ordinary character. A text
that ends with a line feed has no empty last line. Going back, `terminated` writes every line with
one line feed after it.

A text is put on one line by writing a line feed as a space, and perhaps a run of spaces as one
space.
-/

namespace EditorBridge.Text

/-! ## Bytes -/

def encodeUtf8 (text : String) : List UInt8 := text.toByteArray.data.toList

def decodeUtf8? (bytes : List UInt8) : Option String := String.fromUTF8? bytes.toByteArray

/-! ## Lines -/

/-- Cuts at every line feed. The piece after the last line feed is always present. -/
def splitAtLineFeeds (cs : List Char) : List (List Char) := cs.splitOn '\n'

/-- Removes one carriage return from the end of a line. -/
def dropCarriageReturn (line : List Char) : List Char :=
  if line.getLast? = some '\r' then line.dropLast else line

/-- The lines of a text. Only a piece that a line feed ended loses its carriage return. -/
def lines (text : String) : List String :=
  let pieces := splitAtLineFeeds text.toList
  let closed := (pieces.dropLast.map dropCarriageReturn).map String.ofList
  match pieces.getLast? with
  | none | some [] => closed
  | some tail => closed ++ [String.ofList tail]

/-- The lines written one after the other, each with a line feed at its end. -/
def terminated (lines : List String) : String := String.join (lines.map (· ++ "\n"))

/-! ## Texts on one line -/

/-- A line feed becomes a space; any other character stays. -/
def spaceForLineFeed (c : Char) : Char := if c = '\n' then ' ' else c

/-- Keeps the characters in order, except that a space after a space is left out. -/
def collapseSpaces : Char → List Char → List Char
  | _, [] => []
  | last, c :: cs =>
    if c = ' ' ∧ last = ' ' then collapseSpaces ' ' cs else c :: collapseSpaces c cs

/-- Writes every run of spaces and line feeds as one space. -/
def squash (text : String) : String :=
  String.ofList (collapseSpaces '\n' (text.toList.map spaceForLineFeed))

/-- Writes every line feed as a space and leaves the runs as they are. -/
def onOneLine (text : String) : String := String.ofList (text.toList.map spaceForLineFeed)

/-! ## Parts -/

/-- The line without its first `n` characters. -/
def dropChars (n : Nat) (line : String) : String := String.ofList (line.toList.drop n)

/-- How many characters two texts share at their beginnings. -/
def commonLength : List Char → List Char → Nat
  | a :: as, b :: bs => if a = b then commonLength as bs + 1 else 0
  | _, _ => 0

/-- The rest of a text after a given beginning. -/
def after? (beginning : List Char) (text : List Char) : Option (List Char) :=
  if beginning.isPrefixOf text then some (text.drop beginning.length) else none

/-- Whether a pattern occurs somewhere in a text. -/
def occursIn (pattern : List Char) : List Char → Bool
  | [] => pattern.isEmpty
  | c :: cs => pattern.isPrefixOf (c :: cs) || occursIn pattern cs

end EditorBridge.Text
