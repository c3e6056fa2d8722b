import EditorBridge.Proofs.Json.Document
import Mathlib.Data.List.TakeWhile

/-!
# Number literals

A text is taken apart into a literal exactly if it is how the literal is written
(`Literal.ofChars?_eq_some_iff`). The parts are taken off from the left: the sign and the digits of
the integer part, then those of the fraction (`tail?_eq_some_iff`), then the exponent
(`exponent?_eq_some_iff`). Digits end where the next character is not one (`span_digits`).
-/

namespace EditorBridge.Json

theorem isNumberChar_of_isDigit {c : Char} (h : c.isDigit = true) : isNumberChar c = true := by
  simp [isNumberChar, h]

namespace Literal

/-! ## Digits -/

/-- The text does not go on with a digit. -/
def NoDigit (cs : List Char) : Prop := ∀ c ∈ cs.head?, c.isDigit = false

theorem areDigits_takeWhile (cs : List Char) : AreDigits (cs.takeWhile Char.isDigit) :=
  fun _ hc => List.mem_takeWhile_imp hc

theorem span_digits {digits rest : List Char} (hdigits : AreDigits digits) (hrest : NoDigit rest) :
    (digits ++ rest).takeWhile Char.isDigit = digits ∧
      (digits ++ rest).dropWhile Char.isDigit = rest := by
  rw [List.takeWhile_append_of_pos hdigits, List.dropWhile_append_of_pos hdigits]
  cases rest with
  | nil => simp
  | cons c rest =>
    have hc : c.isDigit = false := hrest c rfl
    simp [hc]

theorem all_isDigit_iff {cs : List Char} : cs.all Char.isDigit = true ↔ AreDigits cs :=
  List.all_eq_true

/-- A row of digits does not begin with a character that is none. -/
theorem AreDigits.ne_cons {cs : List Char} (h : AreDigits cs) {c : Char} (hc : c.isDigit = false)
    (rest : List Char) : cs ≠ c :: rest := by
  rintro rfl
  rw [h c List.mem_cons_self] at hc
  cases hc

/-! ## Exponents -/

/-- A sign is taken off from the digits of an exponent. -/
theorem exists_isSign (mark : Char) (rest : List Char) :
    ∃ negative sign digits, rest = sign ++ digits ∧ IsSign negative sign ∧
      exponent? (mark :: rest) =
        if mark = 'e' ∨ mark = 'E' then
          if digits ≠ [] ∧ digits.all Char.isDigit then some (some (negative, digits)) else none
        else none := by
  by_cases hminus : ∃ digits, rest = '-' :: digits
  · obtain ⟨digits, rfl⟩ := hminus
    exact ⟨true, ['-'], digits, rfl, .minus, rfl⟩
  · by_cases hplus : ∃ digits, rest = '+' :: digits
    · obtain ⟨digits, rfl⟩ := hplus
      exact ⟨false, ['+'], digits, rfl, .plus, rfl⟩
    · refine ⟨false, [], rest, rfl, .none, ?_⟩
      rw [exponent?]
      · exact fun digits h => hminus ⟨digits, h⟩
      · exact fun digits h => hplus ⟨digits, h⟩

theorem exponent?_of_isSign {mark : Char} {negative : Bool} {sign digits : List Char}
    (hmark : mark = 'e' ∨ mark = 'E') (hsign : IsSign negative sign) (hne : digits ≠ [])
    (hdigits : AreDigits digits) :
    exponent? (mark :: (sign ++ digits)) = some (some (negative, digits)) := by
  have hall := all_isDigit_iff.mpr hdigits
  cases hsign with
  | none =>
    rw [List.nil_append, exponent?, if_pos hmark, if_pos ⟨hne, hall⟩]
    · exact hdigits.ne_cons (by decide)
    · exact hdigits.ne_cons (by decide)
  | plus => simp [exponent?, hmark, hne, hall]
  | minus => simp [exponent?, hmark, hne, hall]

theorem exponent?_eq_some_iff {cs : List Char} {e : Option (Bool × List Char)} :
    exponent? cs = some e ↔ IsExponent e cs := by
  constructor
  · intro h
    cases cs with
    | nil =>
      obtain rfl := Option.some.inj h
      exact .absent
    | cons mark rest =>
      obtain ⟨negative, sign, digits, rfl, hsign, hexponent⟩ := exists_isSign mark rest
      rw [hexponent] at h
      split_ifs at h with hmark hdigits
      obtain rfl := Option.some.inj h
      exact .present hmark hsign hdigits.1 (all_isDigit_iff.mp hdigits.2)
  · rintro (- | ⟨hmark, hsign, hne, hdigits⟩)
    · rfl
    · exact exponent?_of_isSign hmark hsign hne hdigits

/-- Neither an exponent nor the end of the literal begins with a digit. -/
theorem IsExponent.noDigit {e : Option (Bool × List Char)} {cs : List Char} (h : IsExponent e cs) :
    NoDigit cs := by
  cases h with
  | absent => exact fun c hc => nomatch hc
  | @present mark _ _ _ hmark _ _ _ =>
    intro c hc
    obtain rfl : mark = c := Option.some.inj hc
    rcases hmark with rfl | rfl <;> decide

/-! ## Fractions -/

theorem tail?_eq_some_iff {negative : Bool} {whole cs : List Char} {l : Literal} :
    tail? negative whole cs = some l ↔
      ∃ fraction exponent, l.negative = negative ∧ l.whole = whole ∧
        IsFraction l.fraction fraction ∧ IsExponent l.exponent exponent ∧
        cs = fraction ++ exponent := by
  constructor
  · intro h
    by_cases hpoint : ∃ rest, cs = '.' :: rest
    · obtain ⟨rest, rfl⟩ := hpoint
      rw [tail?] at h
      split_ifs at h with hnone
      obtain ⟨e, he, rfl⟩ := Option.map_eq_some_iff.mp h
      refine ⟨'.' :: rest.takeWhile Char.isDigit, rest.dropWhile Char.isDigit, rfl, rfl,
        .present hnone (areDigits_takeWhile rest), exponent?_eq_some_iff.mp he, ?_⟩
      rw [List.cons_append, List.takeWhile_append_dropWhile]
    · rw [tail?] at h
      · obtain ⟨e, he, rfl⟩ := Option.map_eq_some_iff.mp h
        exact ⟨[], cs, rfl, rfl, .absent, exponent?_eq_some_iff.mp he, rfl⟩
      · exact fun rest hrest => hpoint ⟨rest, hrest⟩
  · rintro ⟨fraction, exponent, rfl, rfl, hfraction, hexponent, rfl⟩
    have hread := exponent?_eq_some_iff.mpr hexponent
    obtain ⟨negative, whole, digits, e⟩ := l
    cases hfraction with
    | absent =>
      rw [List.nil_append, tail?, hread]
      · rfl
      · rintro rest rfl
        cases hexponent with
        | present hmark => exact absurd hmark (by decide)
    | present hne hdigits =>
      obtain ⟨htake, hdrop⟩ := span_digits hdigits hexponent.noDigit
      rw [List.cons_append, tail?]
      simp only [htake, hdrop, if_neg hne, hread, Option.map_some]

/-- Neither a fraction nor what follows it begins with a digit. -/
theorem IsFraction.noDigit {digits fraction exponent : List Char} {e : Option (Bool × List Char)}
    (h : IsFraction digits fraction) (he : IsExponent e exponent) :
    NoDigit (fraction ++ exponent) := by
  cases h with
  | absent => exact he.noDigit
  | present =>
    intro c hc
    obtain rfl : '.' = c := Option.some.inj hc
    decide

/-! ## Integer parts -/

theorem isWhole_iff {cs : List Char} :
    isWhole cs = true ↔ cs = ['0'] ∨ ∃ c rest, cs = c :: rest ∧ c ≠ '0' := by
  unfold isWhole
  split
  · simp
  · simp
  · rename_i c rest hzero
    constructor
    · intro h
      exact Or.inr ⟨c, rest, rfl, bne_iff_ne.mp h⟩
    · rintro (h | ⟨d, rest, h, hd⟩)
      · obtain ⟨rfl, rfl⟩ := List.cons.inj h
        exact absurd rfl (hzero rfl)
      · obtain ⟨rfl, rfl⟩ := List.cons.inj h
        exact bne_iff_ne.mpr hd

theorem isInteger_iff {cs : List Char} :
    IsInteger cs ↔ AreDigits cs ∧ isWhole cs = true := by
  rw [IsInteger, isWhole_iff]

theorem IsInteger.exists_cons {cs : List Char} (h : IsInteger cs) :
    ∃ c rest, cs = c :: rest ∧ c.isDigit = true ∧ AreDigits rest := by
  obtain ⟨c, rest, rfl⟩ : ∃ c rest, cs = c :: rest := by
    rcases h.2 with hzero | ⟨c, rest, hcs, -⟩
    · exact ⟨'0', [], hzero⟩
    · exact ⟨c, rest, hcs⟩
  obtain ⟨hc, hrest⟩ := List.forall_mem_cons.mp h.1
  exact ⟨c, rest, rfl, hc, hrest⟩

theorem IsInteger.ne_cons {cs : List Char} (h : IsInteger cs) {c : Char} (hc : c.isDigit = false)
    (rest suffix : List Char) : cs ++ suffix ≠ c :: rest := by
  obtain ⟨d, ds, rfl, -⟩ := h.exists_cons
  intro heq
  obtain ⟨rfl, -⟩ := List.cons.inj heq
  exact h.1.ne_cons hc ds rfl

/-! ## Literals -/

/-- A minus sign is taken off from the digits of the integer part. -/
theorem exists_minus (cs : List Char) :
    ∃ negative rest, cs = minus negative ++ rest ∧
      ofChars? cs =
        if isWhole (rest.takeWhile Char.isDigit) then
          tail? negative (rest.takeWhile Char.isDigit) (rest.dropWhile Char.isDigit)
        else none := by
  by_cases hminus : ∃ rest, cs = '-' :: rest
  · obtain ⟨rest, rfl⟩ := hminus
    exact ⟨true, rest, rfl, rfl⟩
  · refine ⟨false, cs, rfl, ?_⟩
    rw [ofChars?]
    exact fun rest h => hminus ⟨rest, h⟩

/-- **A text is taken apart into a literal exactly if it is how the literal is written.** -/
theorem ofChars?_eq_some_iff {cs : List Char} {l : Literal} :
    ofChars? cs = some l ↔ l.IsWritten cs := by
  constructor
  · intro h
    obtain ⟨negative, rest, rfl, hrest⟩ := exists_minus cs
    rw [hrest] at h
    split_ifs at h with hwhole
    obtain ⟨fraction, exponent, hnegative, hdigits, hfraction, hexponent, htail⟩ :=
      tail?_eq_some_iff.mp h
    have hinteger : IsInteger l.whole :=
      isInteger_iff.mpr (hdigits ▸ ⟨areDigits_takeWhile rest, hwhole⟩)
    rw [← List.takeWhile_append_dropWhile (p := Char.isDigit) (l := rest), htail, ← hdigits,
      ← hnegative]
    exact .intro hinteger hfraction hexponent
  · rintro @⟨fraction, exponent, hinteger, hfraction, hexponent⟩
    obtain ⟨hdigits, hwhole⟩ := isInteger_iff.mp hinteger
    obtain ⟨htake, hdrop⟩ := span_digits hdigits (hfraction.noDigit hexponent)
    have htail : tail? l.negative l.whole (fraction ++ exponent) = some l :=
      tail?_eq_some_iff.mpr ⟨fraction, exponent, rfl, rfl, hfraction, hexponent, rfl⟩
    cases hnegative : l.negative with
    | true =>
      rw [hnegative] at htail
      simp only [minus, if_true, List.singleton_append, ofChars?, htake, hdrop, hwhole, htail]
    | false =>
      rw [hnegative] at htail
      rw [minus, if_neg Bool.false_ne_true, List.nil_append, ofChars?, htake, hdrop, if_pos hwhole,
        htail]
      exact fun rest => hinteger.ne_cons (by decide) rest _

/-! ## The characters of a literal -/

theorem IsExponent.isNumberChar {e : Option (Bool × List Char)} {cs : List Char}
    (h : IsExponent e cs) : ∀ c ∈ cs, isNumberChar c = true := by
  cases h with
  | absent => exact List.forall_mem_nil _
  | present hmark hsign _ hdigits =>
    refine List.forall_mem_cons.mpr ⟨?_, List.forall_mem_append.mpr
      ⟨?_, fun c hc => isNumberChar_of_isDigit (hdigits c hc)⟩⟩
    · rcases hmark with rfl | rfl <;> decide
    · cases hsign with
      | none => exact List.forall_mem_nil _
      | plus => exact List.forall_mem_singleton.mpr (by decide)
      | minus => exact List.forall_mem_singleton.mpr (by decide)

theorem IsFraction.isNumberChar {digits cs : List Char} (h : IsFraction digits cs) :
    ∀ c ∈ cs, isNumberChar c = true := by
  cases h with
  | absent => exact List.forall_mem_nil _
  | present _ hdigits =>
    exact List.forall_mem_cons.mpr ⟨by decide, fun c hc => isNumberChar_of_isDigit (hdigits c hc)⟩

/-- A number begins with a digit or a minus sign. -/
theorem IsWritten.exists_cons {l : Literal} {cs : List Char} (h : l.IsWritten cs) :
    ∃ c rest, cs = c :: rest ∧ (c.isDigit = true ∨ c = '-') ∧
      ∀ d ∈ rest, isNumberChar d = true := by
  obtain @⟨fraction, exponent, hinteger, hfraction, hexponent⟩ := h
  have hnumber : ∀ {cs}, AreDigits cs → ∀ c ∈ cs, isNumberChar c = true :=
    fun hcs c hc => isNumberChar_of_isDigit (hcs c hc)
  have htail : ∀ c ∈ fraction ++ exponent, isNumberChar c = true :=
    List.forall_mem_append.mpr ⟨hfraction.isNumberChar, hexponent.isNumberChar⟩
  cases hnegative : l.negative with
  | true =>
    exact ⟨'-', l.whole ++ (fraction ++ exponent), rfl, Or.inr rfl,
      List.forall_mem_append.mpr ⟨hnumber hinteger.1, htail⟩⟩
  | false =>
    obtain ⟨c, rest, hwhole, hc, hrest⟩ := hinteger.exists_cons
    rw [hwhole]
    exact ⟨c, rest ++ (fraction ++ exponent), rfl, Or.inl hc,
      List.forall_mem_append.mpr ⟨hnumber hrest, htail⟩⟩

end Literal

/-- A text is read as the number that its literal names. -/
theorem Number.ofChars?_eq_some_iff {cs : List Char} {n : Number} :
    Number.ofChars? cs = some n ↔ ∃ l : Literal, l.IsWritten cs ∧ l.value? = some n := by
  rw [Number.ofChars?, Option.bind_eq_some_iff]
  simp only [Literal.ofChars?_eq_some_iff]

end EditorBridge.Json
