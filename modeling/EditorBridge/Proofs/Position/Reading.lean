import EditorBridge.Position
import EditorBridge.Proofs.Text.Numeral

/-!
# Reading positions

`IsSpelled text p` says how a position may be spelled: a numeral of the line, a colon and a numeral
of the column, where both numbers fit into 32 bits and the line is not zero. The first colon of the
text is the one that counts: there is none before it, and one after it would stand where only a
numeral may stand.

A text is read just if it spells a position (`parse_eq_ok_iff`). What is written for a position
spells it (`isSpelled_render`), and no two positions are written alike (`render_injective`).
`parses_spellings` puts this together.
-/

namespace EditorBridge.Position

open Text

/-- The text spells the position. -/
inductive IsSpelled : List Char → Position → Prop
  | intro {line col : List Char} {p : Position} : ':' ∉ line → Denotes line p.line →
      Denotes col p.col → 1 ≤ p.line → p.line ≤ maxWord32 → p.col ≤ maxWord32 →
      IsSpelled (line ++ ':' :: col) p

/-! ## Reading -/

theorem coordinate?_eq_some_iff {cs : List Char} {n : Nat} :
    coordinate? cs = some n ↔ Denotes cs n ∧ n ≤ maxWord32 := unsigned?_trim_eq_some_iff

/-- A text with a colon is read in two parts. -/
theorem ofChars?_colon {line col : List Char} (h : ':' ∉ line) :
    ofChars? (line ++ ':' :: col) = (coordinate? line).bind fun l => (coordinate? col).bind fun c =>
      if l = 0 then none else some ⟨l, c⟩ := by
  have hline : ∀ c ∈ line, decide (c ≠ ':') = true := fun c hc =>
    decide_eq_true fun heq => h (heq ▸ hc)
  have hbefore : (line ++ ':' :: col).takeWhile (· ≠ ':') = line := by
    rw [List.takeWhile_append_of_pos hline, List.takeWhile_cons_of_neg (by decide), List.append_nil]
  have hafter : (line ++ ':' :: col).dropWhile (· ≠ ':') = ':' :: col := by
    rw [List.dropWhile_append_of_pos hline, List.dropWhile_cons_of_neg (by decide)]
  rw [ofChars?, hbefore, hafter]
  rfl

theorem ofChars?_of_notMem {cs : List Char} (h : ':' ∉ cs) : ofChars? cs = none := by
  have hnone : cs.dropWhile (· ≠ ':') = [] :=
    List.dropWhile_eq_nil_iff.mpr fun c hc => decide_eq_true fun heq => h (heq ▸ hc)
  rw [ofChars?, hnone]

theorem ofChars?_eq_some_iff {cs : List Char} {p : Position} :
    ofChars? cs = some p ↔ IsSpelled cs p := by
  constructor
  · intro h
    by_cases hcolon : ':' ∈ cs
    · obtain ⟨line, col, rfl, hline⟩ := List.eq_append_cons_of_mem hcolon
      rw [ofChars?_colon hline] at h
      obtain ⟨l, hl, h⟩ := Option.bind_eq_some_iff.mp h
      obtain ⟨c, hc, h⟩ := Option.bind_eq_some_iff.mp h
      split_ifs at h with hzero
      obtain rfl := Option.some.inj h
      obtain ⟨hlineValue, hlineFits⟩ := coordinate?_eq_some_iff.mp hl
      obtain ⟨hcolValue, hcolFits⟩ := coordinate?_eq_some_iff.mp hc
      exact .intro hline hlineValue hcolValue (Nat.one_le_iff_ne_zero.mpr hzero) hlineFits hcolFits
    · rw [ofChars?_of_notMem hcolon] at h
      cases h
  · rintro ⟨hline, hlineValue, hcolValue, hpos, hlineFits, hcolFits⟩
    rw [ofChars?_colon hline, coordinate?_eq_some_iff.mpr ⟨hlineValue, hlineFits⟩,
      coordinate?_eq_some_iff.mpr ⟨hcolValue, hcolFits⟩]
    exact if_neg (Nat.one_le_iff_ne_zero.mp hpos)

theorem parse_eq_ok_iff {text : String} {p : Position} :
    parse text = .ok p ↔ IsSpelled text.toList p := by
  rw [← ofChars?_eq_some_iff, parse]
  cases ofChars? text.toList with
  | none => exact ⟨fun h => (nomatch h), fun h => (nomatch h)⟩
  | some q =>
    exact ⟨fun h => congrArg some (Except.ok.inj h), fun h => congrArg _ (Option.some.inj h)⟩

/-- A text that spells no position is refused, and named as the one that was refused. -/
theorem parse_eq_error_iff {text : String} :
    parse text = .error ⟨text⟩ ↔ ¬ ∃ p, IsSpelled text.toList p := by
  simp only [← ofChars?_eq_some_iff, parse]
  cases ofChars? text.toList with
  | none => exact ⟨fun _ ⟨p, h⟩ => (nomatch h), fun _ => rfl⟩
  | some q => exact ⟨fun h => (nomatch h), fun h => absurd ⟨q, rfl⟩ h⟩

/-! ## Writing -/

theorem toList_render (p : Position) :
    p.render.toList = Nat.toDigits 10 p.line ++ ':' :: Nat.toDigits 10 p.col := by
  rw [render, String.toList_append, String.toList_append, Nat.toString_eq_repr,
    Nat.toString_eq_repr, Nat.toList_repr, Nat.toList_repr, List.append_assoc]
  rfl

theorem colon_notMem_toDigits (n : Nat) : ':' ∉ Nat.toDigits 10 n := fun h =>
  absurd (Nat.isDigit_of_mem_toDigits (by decide) (by decide) h) (by decide)

/-- What is written for a position spells it, if it fits. -/
theorem isSpelled_render {p : Position} (hpos : 1 ≤ p.line) (hline : p.line ≤ maxWord32)
    (hcol : p.col ≤ maxWord32) : IsSpelled p.render.toList p := by
  rw [toList_render]
  exact .intro (colon_notMem_toDigits _) (denotes_toDigits _) (denotes_toDigits _) hpos hline hcol

theorem toDigits_injective {m n : Nat} (h : Nat.toDigits 10 m = Nat.toDigits 10 n) : m = n := by
  have hvalue := numeral?_toDigits m
  rw [h, numeral?_toDigits] at hvalue
  exact (Option.some.inj hvalue).symm

theorem render_injective {p q : Position} (h : p.render = q.render) : p = q := by
  have hchars := congrArg String.toList h
  rw [toList_render, toList_render,
    List.append_cons_inj_of_notMem (colon_notMem_toDigits _) (colon_notMem_toDigits _)] at hchars
  obtain ⟨hline, -, hcol⟩ := hchars
  cases p
  cases q
  exact congrArg₂ mk (toDigits_injective hline) (toDigits_injective hcol)

/-- **A text is read just if it spells a position,** and any other text is refused. What is written
for a position is read as this position, if its line is not zero and both numbers fit, and no two
positions are written alike. -/
theorem parses_spellings :
    (∀ text p, parse text = .ok p ↔ IsSpelled text.toList p) ∧
    (∀ text, parse text = .error ⟨text⟩ ↔ ¬ ∃ p, IsSpelled text.toList p) ∧
    (∀ p : Position, 1 ≤ p.line → p.line ≤ maxWord32 → p.col ≤ maxWord32 →
      parse p.render = .ok p) ∧
    ∀ p q : Position, p ≠ q → p.render ≠ q.render :=
  ⟨fun _ _ => parse_eq_ok_iff, fun _ => parse_eq_error_iff,
    fun _ hpos hline hcol => parse_eq_ok_iff.mpr (isSpelled_render hpos hline hcol),
    fun _ _ hne heq => hne (render_injective heq)⟩

theorem parses_spellings_largest :
    (1 ≤ 4294967295 ∧ 4294967295 ≤ maxWord32) ∧
    parse (render ⟨4294967295, 4294967295⟩) = .ok ⟨4294967295, 4294967295⟩ ∧
    (⟨1, 11⟩ : Position) ≠ ⟨11, 1⟩ ∧ render ⟨1, 11⟩ ≠ render ⟨11, 1⟩ :=
  ⟨by decide, parses_spellings.2.2.1 ⟨4294967295, 4294967295⟩ (by decide) (by decide) (by decide),
    by decide, parses_spellings.2.2.2 ⟨1, 11⟩ ⟨11, 1⟩ (by decide)⟩

example : parse "\u2003+007\t: 0\n" = .ok ⟨7, 0⟩ := rfl

end EditorBridge.Position
