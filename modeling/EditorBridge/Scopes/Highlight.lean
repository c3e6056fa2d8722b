import EditorBridge.Position

/-!
# Highlighting a span

A span is shown as regions: blocks of whole lines with a first and, at most, a last column. A
span on one line is one region. A longer span is the tail of its first line, the lines in
between, if there are any, and the head of its last line.

A region is written as a search pattern of atoms that must all hold: `\%>Nl` and `\%<Nl` compare
the line with `N`, `\%>Nc` and `\%<Nc` the column, counted from one. The patterns of several
regions are alternatives.

Lines and columns are 32-bit words, and so are the numbers in a pattern. A number may not fit then,
as the comparisons are strict.
-/

namespace EditorBridge

open Text

structure Region where
  firstLine : Nat
  lastLine : Nat
  startCol : Nat
  /-- The column before which the block ends; without one it ends with each line. -/
  endCol : Option Nat
deriving DecidableEq, Inhabited

namespace Region

/-- One atom of a pattern: a comparison of the line or the column with a number. -/
def atom (comparison : Char) (number : Nat) (unit : Char) : String :=
  "\\%" ++ comparison.toString ++ toString number ++ unit.toString

def pattern (r : Region) : Except Overflow String := do
  let fromLine := if 0 < r.firstLine then atom '>' (r.firstLine - 1) 'l' else ""
  let fromCol := if 0 < r.startCol then atom '>' r.startCol 'c' else ""
  let nextLine ← successor maxWord32 r.lastLine
  let toCol ← match r.endCol with
    | some col => (atom '<' · 'c') <$> successor maxWord32 col
    | none => pure ""
  pure (fromLine ++ fromCol ++ atom '<' nextLine 'l' ++ toCol)

/-- The pattern of some regions, which are its alternatives. -/
def alternatives (regions : List Region) : Except Overflow String := do
  let patterns ← regions.mapM pattern
  pure (String.intercalate "\\|" patterns)

end Region

namespace Span

/-- The regions that make up a span. -/
def regions (s : Span) : Except Overflow (List Region) :=
  if s.isSingleLine then .ok [⟨s.start.line, s.stop.line, s.start.col, some s.stop.col⟩]
  else do
    let second ← successor maxWord32 s.start.line
    let first : Region := ⟨s.start.line, s.start.line, s.start.col, none⟩
    let last : Region := ⟨s.stop.line, s.stop.line, 0, some s.stop.col⟩
    let between : List Region :=
      if second < s.stop.line then [⟨second, s.stop.line - 1, 0, none⟩] else []
    pure (first :: between ++ [last])

def pattern (s : Span) : Except Overflow String := do
  let regions ← s.regions
  Region.alternatives regions

end Span

end EditorBridge
