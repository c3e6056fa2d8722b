import EditorBridge.Text.Numeral

/-!
# Positions and spans

A position is a place of the cursor: a line, counted from one, and a column, counted in
characters from zero. Positions are ordered by line, then by column. A span is the region from
a start to a stop.

A position is written `LINE:COL`. Reading allows white space and a plus sign at either number
and refuses line zero.
-/

namespace EditorBridge

open Text

/-- A place of the cursor. -/
structure Position where
  line : Nat
  col : Nat
deriving DecidableEq, Inhabited

namespace Position

instance : LE Position where
  le p q := p.line < q.line ∨ p.line = q.line ∧ p.col ≤ q.col

instance : LT Position where
  lt p q := p.line < q.line ∨ p.line = q.line ∧ p.col < q.col

instance (p q : Position) : Decidable (p ≤ q) :=
  inferInstanceAs (Decidable (p.line < q.line ∨ p.line = q.line ∧ p.col ≤ q.col))

instance (p q : Position) : Decidable (p < q) :=
  inferInstanceAs (Decidable (p.line < q.line ∨ p.line = q.line ∧ p.col < q.col))

instance : Min Position := minOfLe

instance : Max Position := maxOfLe

protected def compare (p q : Position) : Ordering :=
  (Ord.compare p.line q.line).then (Ord.compare p.col q.col)

instance : Ord Position := ⟨Position.compare⟩

/-- The start of a line. -/
def lineStart (line : Nat) : Position := ⟨line, 0⟩

def render (p : Position) : String := toString p.line ++ ":" ++ toString p.col

/-- A text that is no position. -/
structure ParseError where
  input : String

def ParseError.message (e : ParseError) : String :=
  "invalid position '" ++ e.input ++ "': expected LINE:COL with LINE >= 1"

/-- Reads a line or a column: a 32-bit numeral with white space around it. -/
def coordinate? (cs : List Char) : Option Nat := unsigned? maxWord32 (trim cs)

/-- Reads a line, the first colon and a column. -/
def ofChars? (cs : List Char) : Option Position :=
  match cs.dropWhile (· ≠ ':') with
  | [] => none
  | _ :: after => do
    let line ← coordinate? (cs.takeWhile (· ≠ ':'))
    let col ← coordinate? after
    if line = 0 then none else some ⟨line, col⟩

def parse (text : String) : Except ParseError Position :=
  match ofChars? text.toList with
  | some p => .ok p
  | none => .error ⟨text⟩

end Position

/-- The region from a start up to, but not including, a stop. -/
structure Span where
  start : Position
  stop : Position
deriving DecidableEq, Inhabited

namespace Span

/-- Whether a span begins and ends on the same line. -/
def isSingleLine (s : Span) : Bool := s.start.line == s.stop.line

/-- The smallest span that covers both. -/
def union (s t : Span) : Span := ⟨min s.start t.start, max s.stop t.stop⟩

def render (s : Span) : String := s.start.render ++ "-" ++ s.stop.render

end Span

end EditorBridge
