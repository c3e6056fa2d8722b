import EditorBridge.Proofs.Position.Order
import EditorBridge.Proofs.Text.Numeral
import EditorBridge.Scopes.Highlight
import Mathlib.Logic.Basic

/-!
# What a highlight matches

A search pattern is text. It is read (`SearchPattern.read`) by cutting it at its backslashes: each
of them begins an atom, or it begins a bar, which stands between two alternatives. A pattern matches
the places at which all atoms of one of its alternatives hold.

A span has a pattern just if its last line and its last column are not the largest ones of all
(`Span.pattern_eq_error_iff`). The pattern reads as one alternative for each of the regions
(`Region.read_alternatives`), the alternative of a region matches the places that the region covers
(`Region.matches_atoms_iff`), and the regions of a span cover the span, no place twice
(`Span.covered_iff`, `Span.pairwise_blocks`). So the pattern matches the places of the span and no
others (`Span.matches_pattern`).
-/

namespace EditorBridge

namespace SearchPattern

inductive Comparison where
  | above
  | below
deriving DecidableEq

/-- What an atom compares with its number. -/
inductive Axis where
  | line
  /-- The column, counted from one. -/
  | column
deriving DecidableEq

/-- The line, or the column, is above or below a number. -/
structure Atom where
  comparison : Comparison
  number : Nat
  axis : Axis
deriving DecidableEq

def Axis.of (p : Position) : Axis → Nat
  | .line => p.line
  | .column => p.col + 1

def Atom.Holds (a : Atom) (p : Position) : Prop :=
  match a.comparison with
  | .above => a.number < a.axis.of p
  | .below => a.axis.of p < a.number

instance (a : Atom) (p : Position) : Decidable (a.Holds p) := by
  unfold Atom.Holds
  cases a.comparison <;> exact inferInstance

theorem Atom.holds_above {n : Nat} {axis : Axis} {p : Position} :
    (Atom.mk .above n axis).Holds p ↔ n < axis.of p := Iff.rfl

theorem Atom.holds_below {n : Nat} {axis : Axis} {p : Position} :
    (Atom.mk .below n axis).Holds p ↔ axis.of p < n := Iff.rfl

/-- What a backslash begins. -/
inductive Piece where
  | atom (a : Atom)
  /-- The end of an alternative and the beginning of the next one. -/
  | bar
deriving DecidableEq

/-! ## Reading -/

def Comparison.ofChar? : Char → Option Comparison
  | '>' => some .above
  | '<' => some .below
  | _ => none

def Axis.ofChar? : Char → Option Axis
  | 'l' => some .line
  | 'c' => some .column
  | _ => none

/-- Reads what stands between two backslashes: a bar, or a percent sign, a comparison, a numeral
and what is compared with it. -/
def Piece.ofChars? : List Char → Option Piece
  | ['|'] => some .bar
  | '%' :: comparison :: rest => do
    let comparison ← Comparison.ofChar? comparison
    let number ← Text.numeral? rest.dropLast
    let axis ← rest.getLast?.bind Axis.ofChar?
    some (.atom ⟨comparison, number, axis⟩)
  | _ => none

/-- The alternatives that some pieces make up. -/
def alternatives : List Piece → List (List Atom)
  | [] => [[]]
  | .bar :: pieces => [] :: alternatives pieces
  | .atom a :: pieces => (alternatives pieces).modifyHead (a :: ·)

/-- Reads a pattern. Nothing may stand before its first backslash. -/
def read (text : String) : Option (List (List Atom)) :=
  match text.toList.splitOn '\\' with
  | [] :: pieces => (pieces.mapM Piece.ofChars?).map alternatives
  | _ => none

/-- Whether an alternative matches a place. -/
def Matches (p : Position) (alternative : List Atom) : Prop := ∀ a ∈ alternative, a.Holds p

instance (p : Position) (alternative : List Atom) : Decidable (Matches p alternative) :=
  inferInstanceAs (Decidable (∀ a ∈ alternative, a.Holds p))

/-! ## Reading what was written -/

def Comparison.char : Comparison → Char
  | .above => '>'
  | .below => '<'

def Axis.char : Axis → Char
  | .line => 'l'
  | .column => 'c'

def Piece.chars : Piece → List Char
  | .bar => ['|']
  | .atom a => '%' :: a.comparison.char :: (Nat.toDigits 10 a.number ++ [a.axis.char])

/-- The text of some pieces: each with a backslash before it. -/
def spell (pieces : List Piece) : List Char := pieces.flatMap fun piece => '\\' :: piece.chars

theorem Piece.ofChars?_chars (piece : Piece) : ofChars? piece.chars = some piece := by
  cases piece with
  | bar => rfl
  | atom a =>
    obtain ⟨comparison, number, axis⟩ := a
    have hcomparison : Comparison.ofChar? comparison.char = some comparison := by
      cases comparison <;> rfl
    have haxis : Axis.ofChar? axis.char = some axis := by cases axis <;> rfl
    simp only [chars, ofChars?, List.dropLast_concat, List.getLast?_concat, Text.numeral?_toDigits,
      Option.bind_some, haxis, hcomparison, bind]

/-- A piece is written with digits and a few signs. -/
theorem Piece.mem_chars {piece : Piece} {c : Char} (h : c ∈ piece.chars) :
    c.isDigit = true ∨ c ∈ ['|', '%', '>', '<', 'l', 'c'] := by
  cases piece with
  | bar =>
    rw [List.mem_singleton.mp h]
    decide
  | atom a =>
    obtain ⟨comparison, number, axis⟩ := a
    simp only [chars, List.mem_cons, List.mem_append, List.not_mem_nil, or_false] at h
    rcases h with rfl | rfl | h | rfl
    · decide
    · cases comparison <;> decide
    · exact Or.inl (Nat.isDigit_of_mem_toDigits (by decide) (by decide) h)
    · cases axis <;> decide

theorem Piece.backslash_notMem_chars (piece : Piece) : '\\' ∉ piece.chars := fun h =>
  absurd (mem_chars h) (by decide)

/-- The backslashes cut a text into its pieces. -/
theorem splitOn_append_spell {front : List Char} (h : '\\' ∉ front) (pieces : List Piece) :
    (front ++ spell pieces).splitOn '\\' = front :: pieces.map Piece.chars := by
  have hplain : ∀ cs : List Char, '\\' ∉ cs → ∀ c ∈ cs, (c == '\\') = false := by
    intro cs hcs c hc
    exact beq_eq_false_iff_ne.mpr fun heq => hcs (heq ▸ hc)
  induction pieces generalizing front with
  | nil =>
    rw [spell, List.flatMap_nil, List.append_nil]
    exact List.splitOnP_eq_singleton (hplain front h)
  | cons piece pieces ih =>
    have hspell : spell (piece :: pieces) = '\\' :: (piece.chars ++ spell pieces) := rfl
    rw [hspell, List.map_cons, ← ih piece.backslash_notMem_chars]
    exact List.splitOnP_append_cons_of_forall_mem (hplain front h) '\\' (by decide) _

theorem spell_append (pieces pieces' : List Piece) :
    spell (pieces ++ pieces') = spell pieces ++ spell pieces' := List.flatMap_append

theorem mapM_chars (pieces : List Piece) :
    (pieces.map Piece.chars).mapM Piece.ofChars? = some pieces := by
  induction pieces with
  | nil => rfl
  | cons piece pieces ih =>
    rw [List.map_cons, List.mapM_cons, Piece.ofChars?_chars, ih]
    rfl

/-- **What was spelled is read.** -/
theorem read_of_spell {text : String} {pieces : List Piece} (h : text.toList = spell pieces) :
    read text = some (alternatives pieces) := by
  have hsplit : (spell pieces).splitOn '\\' = [] :: pieces.map Piece.chars :=
    splitOn_append_spell List.not_mem_nil pieces
  rw [read, h, hsplit]
  simp only [mapM_chars, Option.map_some]

/-- The pieces of some alternatives: their atoms, with a bar between the alternatives. -/
def join : List (List Atom) → List Piece
  | [] => []
  | [atoms] => atoms.map .atom
  | atoms :: rest => atoms.map .atom ++ .bar :: join rest

theorem alternatives_append_bar (atoms : List Atom) (pieces : List Piece) :
    alternatives (atoms.map .atom ++ .bar :: pieces) = atoms :: alternatives pieces := by
  induction atoms with
  | nil => rfl
  | cons a atoms ih =>
    rw [List.map_cons, List.cons_append, alternatives, ih, List.modifyHead_cons]

theorem alternatives_join {pattern : List (List Atom)} (h : pattern ≠ []) :
    alternatives (join pattern) = pattern := by
  induction pattern using join.induct with
  | case1 => exact absurd rfl h
  | case2 atoms =>
    rw [join]
    induction atoms with
    | nil => rfl
    | cons a atoms ih =>
      rw [List.map_cons, alternatives, ih (List.cons_ne_nil _ _), List.modifyHead_cons]
  | case3 atoms rest hrest ih =>
    rw [join, alternatives_append_bar, ih hrest]
    exact hrest

end SearchPattern

open SearchPattern
open Text (maxWord32 successor successor_of_lt successor_of_le)

/-! ## Regions -/

namespace Region

/-- The atoms that a region is written with. -/
def atoms (r : Region) : List Atom :=
  (if 0 < r.firstLine then [⟨.above, r.firstLine - 1, .line⟩] else []) ++
    (if 0 < r.startCol then [⟨.above, r.startCol, .column⟩] else []) ++
    ⟨.below, r.lastLine + 1, .line⟩ :: (r.endCol.map fun col => ⟨.below, col + 1, .column⟩).toList

/-- The region covers a place: its block of lines does, and its columns do. -/
structure Covers (r : Region) (p : Position) : Prop where
  firstLine : r.firstLine ≤ p.line
  lastLine : p.line ≤ r.lastLine
  startCol : r.startCol ≤ p.col
  endCol : ∀ col ∈ r.endCol, p.col < col

theorem covers_iff {r : Region} {p : Position} :
    r.Covers p ↔ r.firstLine ≤ p.line ∧ p.line ≤ r.lastLine ∧ r.startCol ≤ p.col ∧
      ∀ col ∈ r.endCol, p.col < col :=
  ⟨fun ⟨hfirst, hlast, hstart, hend⟩ => ⟨hfirst, hlast, hstart, hend⟩,
    fun ⟨hfirst, hlast, hstart, hend⟩ => ⟨hfirst, hlast, hstart, hend⟩⟩

/-- **The atoms of a region hold at the places that it covers.** -/
theorem matches_atoms_iff (r : Region) (p : Position) : Matches p r.atoms ↔ r.Covers p := by
  obtain ⟨firstLine, lastLine, startCol, endCol⟩ := r
  have hfirstLine : Matches p (if 0 < firstLine then [⟨.above, firstLine - 1, .line⟩] else []) ↔
      firstLine ≤ p.line := by
    by_cases hpos : 0 < firstLine
    · rw [if_pos hpos, Matches, List.forall_mem_singleton, Atom.holds_above, Axis.of]
      omega
    · rw [if_neg hpos]
      exact iff_of_true (List.forall_mem_nil _) (by omega)
  have hstartCol : Matches p (if 0 < startCol then [⟨.above, startCol, .column⟩] else []) ↔
      startCol ≤ p.col := by
    by_cases hpos : 0 < startCol
    · rw [if_pos hpos, Matches, List.forall_mem_singleton, Atom.holds_above, Axis.of]
      omega
    · rw [if_neg hpos]
      exact iff_of_true (List.forall_mem_nil _) (by omega)
  have hlastLine : (Atom.mk .below (lastLine + 1) .line).Holds p ↔ p.line ≤ lastLine :=
    Nat.lt_succ_iff
  have hendCol : Matches p (endCol.map fun col => Atom.mk .below (col + 1) .column).toList ↔
      ∀ col ∈ endCol, p.col < col := by
    cases endCol with
    | none => exact iff_of_true (List.forall_mem_nil _) (fun col hcol => nomatch hcol)
    | some col =>
      rw [Option.map_some, Option.toList_some, Matches, List.forall_mem_singleton,
        Atom.holds_below, Axis.of]
      simp
  have hsplit : Matches p (atoms ⟨firstLine, lastLine, startCol, endCol⟩) ↔
      ((firstLine ≤ p.line ∧ startCol ≤ p.col) ∧ p.line ≤ lastLine) ∧
        ∀ col ∈ endCol, p.col < col := by
    rw [← hfirstLine, ← hstartCol, ← hlastLine, ← hendCol]
    simp only [Matches, atoms, List.forall_mem_append, List.forall_mem_cons, and_assoc]
  rw [hsplit, covers_iff]
  constructor
  · rintro ⟨⟨⟨hfirst, hstart⟩, hlast⟩, hend⟩
    exact ⟨hfirst, hlast, hstart, hend⟩
  · rintro ⟨hfirst, hlast, hstart, hend⟩
    exact ⟨⟨⟨hfirst, hstart⟩, hlast⟩, hend⟩

theorem toList_atom (comparison : Comparison) (number : Nat) (axis : Axis) :
    (atom comparison.char number axis.char).toList =
      spell [.atom ⟨comparison, number, axis⟩] := by
  simp [atom, spell, Piece.chars]

/-- The pattern of a region, whatever its numbers are. -/
def text (r : Region) : String :=
  (if 0 < r.firstLine then atom '>' (r.firstLine - 1) 'l' else "") ++
    (if 0 < r.startCol then atom '>' r.startCol 'c' else "") ++ atom '<' (r.lastLine + 1) 'l' ++
    (r.endCol.map fun col => atom '<' (col + 1) 'c').getD ""

theorem toList_text (r : Region) : r.text.toList = spell (r.atoms.map .atom) := by
  obtain ⟨firstLine, lastLine, startCol, endCol⟩ := r
  have hfirstLine : (if 0 < firstLine then atom '>' (firstLine - 1) 'l' else "").toList =
      spell ((if 0 < firstLine then [⟨.above, firstLine - 1, .line⟩] else []).map .atom) := by
    split
    · exact toList_atom .above (firstLine - 1) .line
    · rfl
  have hstartCol : (if 0 < startCol then atom '>' startCol 'c' else "").toList =
      spell ((if 0 < startCol then [⟨.above, startCol, .column⟩] else []).map .atom) := by
    split
    · exact toList_atom .above startCol .column
    · rfl
  have hlastLine := toList_atom .below (lastLine + 1) .line
  rw [text, atoms, List.map_append, List.map_append, List.map_cons, spell_append, spell_append,
    ← hfirstLine, ← hstartCol, ← List.singleton_append, spell_append, ← hlastLine]
  cases endCol with
  | none => simp [spell, Comparison.char, Axis.char]
  | some col =>
    have hendCol := toList_atom .below (col + 1) .column
    simp only [Option.map_some, Option.toList_some, List.map_cons, List.map_nil, ← hendCol]
    simp [Comparison.char, Axis.char]

/-- The line after the region and the column after its last one are words. -/
structure Fits (r : Region) : Prop where
  lastLine : r.lastLine < maxWord32
  endCol : ∀ col ∈ r.endCol, col < maxWord32

theorem pattern_of_fits {r : Region} (h : r.Fits) : r.pattern = .ok r.text := by
  obtain ⟨firstLine, lastLine, startCol, endCol⟩ := r
  have hline : successor maxWord32 lastLine = .ok (lastLine + 1) := successor_of_lt h.lastLine
  cases endCol with
  | none =>
    rw [pattern, hline]
    rfl
  | some col =>
    have hcol : successor maxWord32 col = .ok (col + 1) := successor_of_lt (h.endCol col rfl)
    simp only [pattern, hline, hcol]
    rfl

theorem pattern_of_not_fits {r : Region} (h : ¬ r.Fits) : r.pattern = .error .addition := by
  obtain ⟨firstLine, lastLine, startCol, endCol⟩ := r
  by_cases hlast : lastLine < maxWord32
  · have hline : successor maxWord32 lastLine = .ok (lastLine + 1) := successor_of_lt hlast
    cases endCol with
    | none => exact absurd ⟨hlast, fun _ hcol => nomatch hcol⟩ h
    | some col =>
      have hcol : successor maxWord32 col = .error .addition := by
        refine successor_of_le (Nat.not_lt.mp fun hlt => h ⟨hlast, fun col' hcol' => ?_⟩)
        obtain rfl : col = col' := Option.some.inj hcol'
        exact hlt
      simp only [pattern, hline, hcol]
      rfl
  · have hline : successor maxWord32 lastLine = .error .addition :=
      successor_of_le (Nat.not_lt.mp hlast)
    simp only [pattern, hline]
    rfl

/-- Some regions have a pattern just if each of them has one. -/
theorem alternatives_eq_ok_iff {regions : List Region} {pattern : String} :
    alternatives regions = .ok pattern ↔
      (∀ r ∈ regions, r.Fits) ∧ pattern = String.intercalate "\\|" (regions.map text) := by
  rw [alternatives]
  by_cases h : ∀ r ∈ regions, r.Fits
  · have hpatterns : regions.mapM Region.pattern = .ok (regions.map text) := by
      rw [Overflow.mapM_eq_ok_iff, List.map_map]
      exact List.map_congr_left fun r hr => pattern_of_fits (h r hr)
    rw [hpatterns]
    exact ⟨fun heq => ⟨h, (Except.ok.inj heq).symm⟩, fun heq => congrArg Except.ok heq.2.symm⟩
  · have hpatterns : regions.mapM Region.pattern = .error .addition := by
      rw [Overflow.mapM_eq_error_iff]
      push Not at h
      obtain ⟨r, hr, hfits⟩ := h
      exact ⟨r, hr, pattern_of_not_fits hfits⟩
    rw [hpatterns]
    exact iff_of_false (fun heq => nomatch heq) fun heq => h heq.1

theorem toList_intercalate (regions : List Region) :
    (String.intercalate "\\|" (regions.map text)).toList = spell (join (regions.map atoms)) := by
  induction regions with
  | nil => rfl
  | cons r rest ih =>
    cases rest with
    | nil => simp [String.intercalate_singleton, join, toList_text]
    | cons r' rest =>
      have hbar : spell [Piece.bar] = "\\|".toList := by decide
      rw [List.map_cons, String.intercalate_cons_of_ne_nil (by simp), String.toList_append,
        String.toList_append, ih, r.toList_text, ← hbar, ← spell_append, ← spell_append,
        List.append_assoc]
      rfl

/-- The pattern of some regions is made of atoms and bars. -/
theorem toList_of_alternatives {regions : List Region} {pattern : String}
    (h : alternatives regions = .ok pattern) :
    pattern.toList = spell (join (regions.map atoms)) := by
  obtain ⟨-, rfl⟩ := alternatives_eq_ok_iff.mp h
  exact toList_intercalate regions

/-- **The pattern of some regions has one alternative for each of them.** -/
theorem read_alternatives {regions : List Region} {pattern : String}
    (h : alternatives regions = .ok pattern) (hne : regions ≠ []) :
    read pattern = some (regions.map atoms) := by
  have hatoms : regions.map atoms ≠ [] := fun h => hne (List.map_eq_nil_iff.mp h)
  rw [read_of_spell (toList_of_alternatives h), alternatives_join hatoms]

end Region

/-! ## Spans -/

namespace Span

/-- The lines and columns after the ends of the span are words, where its pattern needs them. -/
structure Fits (s : Span) : Prop where
  startLine : s.start.line < maxWord32
  stopLine : s.stop.line < maxWord32
  stopCol : s.stop.col < maxWord32

/-- What the span consists of: the rest of its first line, the lines between, and the beginning of
its last line, or a part of one line. -/
def blocks (s : Span) : List Region :=
  if s.start.line = s.stop.line then [⟨s.start.line, s.stop.line, s.start.col, some s.stop.col⟩]
  else
    ⟨s.start.line, s.start.line, s.start.col, none⟩ ::
      (if s.start.line + 1 < s.stop.line
        then [⟨s.start.line + 1, s.stop.line - 1, 0, none⟩] else []) ++
      [⟨s.stop.line, s.stop.line, 0, some s.stop.col⟩]

theorem blocks_ne_nil (s : Span) : s.blocks ≠ [] := by
  unfold blocks
  split <;> simp

/-- Only a span of several lines that starts on the largest one overflows. -/
theorem regions_eq_error_iff {s : Span} :
    s.regions = .error .addition ↔ s.start.line ≠ s.stop.line ∧ maxWord32 ≤ s.start.line := by
  rw [regions]
  by_cases hline : s.start.line = s.stop.line
  · have hsingle : s.isSingleLine = true := beq_iff_eq.mpr hline
    rw [if_pos hsingle]
    exact iff_of_false (fun h => nomatch h) fun h => h.1 hline
  · have hsingle : s.isSingleLine = false := beq_eq_false_iff_ne.mpr hline
    rw [hsingle, if_neg Bool.false_ne_true]
    by_cases hlt : s.start.line < maxWord32
    · rw [successor_of_lt hlt]
      exact iff_of_false (fun h => nomatch h) fun h => absurd hlt (Nat.not_lt.mpr h.2)
    · rw [successor_of_le (Nat.not_lt.mp hlt)]
      exact iff_of_true rfl ⟨hline, Nat.not_lt.mp hlt⟩

theorem regions_eq_ok_iff {s : Span} {regions : List Region} :
    s.regions = .ok regions ↔
      (s.start.line = s.stop.line ∨ s.start.line < maxWord32) ∧ regions = s.blocks := by
  rw [Span.regions, blocks]
  by_cases hline : s.start.line = s.stop.line
  · have hsingle : s.isSingleLine = true := beq_iff_eq.mpr hline
    rw [if_pos hsingle, if_pos hline, Except.ok.injEq, eq_comm]
    exact (and_iff_right (Or.inl hline)).symm
  · have hsingle : s.isSingleLine = false := beq_eq_false_iff_ne.mpr hline
    rw [hsingle, if_neg Bool.false_ne_true, if_neg hline]
    by_cases hlt : s.start.line < maxWord32
    · rw [successor_of_lt hlt, and_iff_right (Or.inr hlt), eq_comm (a := regions)]
      exact ⟨fun h => Except.ok.inj h, fun h => congrArg Except.ok h⟩
    · rw [successor_of_le (Nat.not_lt.mp hlt)]
      exact iff_of_false (fun h => nomatch h) fun h => h.1.elim hline hlt

/-- The blocks of a span fit just if its ends do. -/
theorem forall_fits_blocks_iff {s : Span} : (∀ r ∈ s.blocks, r.Fits) ↔ s.Fits := by
  have hnone : ∀ first last start : Nat,
      Region.Fits ⟨first, last, start, none⟩ ↔ last < maxWord32 := fun _ _ _ =>
    ⟨fun h => h.lastLine, fun h => ⟨h, fun _ hcol => nomatch hcol⟩⟩
  have hsome : ∀ first last start stop : Nat,
      Region.Fits ⟨first, last, start, some stop⟩ ↔ last < maxWord32 ∧ stop < maxWord32 := by
    refine fun _ _ _ stop => ⟨fun h => ⟨h.lastLine, h.endCol stop rfl⟩, fun h => ⟨h.1, ?_⟩⟩
    intro col hcol
    obtain rfl := Option.some.inj hcol
    exact h.2
  have hspan : s.Fits ↔
      s.start.line < maxWord32 ∧ s.stop.line < maxWord32 ∧ s.stop.col < maxWord32 :=
    ⟨fun h => ⟨h.startLine, h.stopLine, h.stopCol⟩, fun h => ⟨h.1, h.2.1, h.2.2⟩⟩
  rw [hspan, blocks]
  by_cases hline : s.start.line = s.stop.line
  · rw [if_pos hline, List.forall_mem_singleton, hsome]
    omega
  · rw [if_neg hline, List.cons_append, List.forall_mem_cons, List.forall_mem_append, hnone,
      List.forall_mem_singleton, hsome]
    split
    · rw [List.forall_mem_singleton, hnone]
      omega
    · exact and_congr_right fun _ => and_iff_right (List.forall_mem_nil _)

/-- A span has a pattern just if it fits. The pattern is that of its blocks. -/
theorem pattern_eq_ok_iff {s : Span} {pattern : String} :
    s.pattern = .ok pattern ↔ Region.alternatives s.blocks = .ok pattern := by
  rw [Span.pattern]
  by_cases h : s.start.line = s.stop.line ∨ s.start.line < maxWord32
  · rw [regions_eq_ok_iff.mpr ⟨h, rfl⟩]
    rfl
  · have hregions : s.regions = .error .addition := by
      rw [regions_eq_error_iff]
      omega
    rw [hregions]
    refine iff_of_false (fun h => nomatch h) fun hblocks => h (Or.inr ?_)
    exact (forall_fits_blocks_iff.mp (Region.alternatives_eq_ok_iff.mp hblocks).1).startLine

/-- **A span has a pattern just if it fits.** -/
theorem pattern_eq_error_iff {s : Span} : s.pattern = .error .addition ↔ ¬ s.Fits := by
  rw [Overflow.eq_error_iff, ← forall_fits_blocks_iff]
  simp only [pattern_eq_ok_iff, Region.alternatives_eq_ok_iff, exists_and_left, exists_eq, and_true]

/-- **The blocks of a span cover it.** -/
theorem covered_iff {s : Span} (h : s.start ≤ s.stop) (p : Position) :
    (∃ r ∈ s.blocks, r.Covers p) ↔ s.start ≤ p ∧ p < s.stop := by
  simp only [Position.le_iff, Position.lt_iff] at h ⊢
  rw [blocks]
  rcases h with h | ⟨h, hcol⟩
  · rw [if_neg (Nat.ne_of_lt h)]
    split <;> simp [Region.covers_iff] <;> omega
  · rw [if_pos h]
    simp [Region.covers_iff]
    omega

/-- No two blocks of a span cover the same place: they are on different lines. -/
theorem pairwise_blocks {s : Span} (h : s.start ≤ s.stop) (p : Position) :
    s.blocks.Pairwise fun r r' => ¬ (r.Covers p ∧ r'.Covers p) := by
  rw [Position.le_iff] at h
  rw [blocks]
  rcases h with h | ⟨h, -⟩
  · rw [if_neg (Nat.ne_of_lt h)]
    split <;> simp [Region.covers_iff] <;> omega
  · rw [if_pos h]
    exact List.pairwise_singleton _ _

/-- Of elements that exclude each other at most one is there. -/
theorem countP_le_one_of_pairwise {α : Type} {q : α → Bool} {as : List α}
    (h : as.Pairwise fun a b => ¬ (q a = true ∧ q b = true)) : as.countP q ≤ 1 := by
  induction as with
  | nil => exact Nat.zero_le 1
  | cons a as ih =>
    obtain ⟨ha, has⟩ := List.pairwise_cons.mp h
    by_cases hq : q a = true
    · have hzero : as.countP q = 0 :=
        List.countP_eq_zero.mpr fun b hb hqb => ha b hb ⟨hq, hqb⟩
      have hone : (a :: as).countP q = 1 := by
        rw [List.countP_cons_of_pos hq, hzero]
      exact Nat.le_of_eq hone
    · rw [List.countP_cons_of_neg hq]
      exact ih has

/-- **The pattern of a span matches the places of the span.** A span that fits has a pattern, and
the pattern can be read. It matches a place just if the place is in the span, and then one
alternative alone matches it. -/
theorem matches_pattern {s : Span} (h : s.start ≤ s.stop) (hfits : s.Fits) :
    ∃ text pattern, s.pattern = .ok text ∧ read text = some pattern ∧ ∀ p : Position,
      ((∃ alternative ∈ pattern, Matches p alternative) ↔ s.start ≤ p ∧ p < s.stop) ∧
      pattern.countP (Matches p ·) ≤ 1 := by
  have hblocks := Region.alternatives_eq_ok_iff.mpr ⟨forall_fits_blocks_iff.mpr hfits, rfl⟩
  refine ⟨_, _, pattern_eq_ok_iff.mpr hblocks, Region.read_alternatives hblocks s.blocks_ne_nil,
    fun p => ⟨?_, countP_le_one_of_pairwise ?_⟩⟩
  · rw [← covered_iff h]
    simp only [List.mem_map, exists_exists_and_eq_and, Region.matches_atoms_iff]
  · simp only [List.pairwise_map, decide_eq_true_iff, Region.matches_atoms_iff]
    exact pairwise_blocks h p

/-- A span from inside a line to inside the line after the next one. -/
theorem matches_pattern_threeLines :
    (⟨1, 3⟩ : Position) ≤ ⟨3, 2⟩ ∧ ∃ pattern,
      read "\\%>0l\\%>3c\\%<2l\\|\\%>1l\\%<3l\\|\\%>2l\\%<4l\\%<3c" = some pattern ∧
      ((∃ alternative ∈ pattern, Matches ⟨3, 1⟩ alternative) ↔
        (⟨1, 3⟩ : Position) ≤ ⟨3, 1⟩ ∧ (⟨3, 1⟩ : Position) < ⟨3, 2⟩) := by
  have hle : (⟨1, 3⟩ : Position) ≤ ⟨3, 2⟩ := by decide
  have hpattern : (⟨⟨1, 3⟩, ⟨3, 2⟩⟩ : Span).pattern =
      .ok "\\%>0l\\%>3c\\%<2l\\|\\%>1l\\%<3l\\|\\%>2l\\%<4l\\%<3c" := by
    decide +kernel
  obtain ⟨text, pattern, htext, hread, hmatches⟩ :=
    @matches_pattern ⟨⟨1, 3⟩, ⟨3, 2⟩⟩ hle ⟨by decide, by decide, by decide⟩
  obtain rfl := Except.ok.inj (hpattern.symm.trans htext)
  exact ⟨hle, pattern, hread, (hmatches ⟨3, 1⟩).1⟩

end Span

end EditorBridge
