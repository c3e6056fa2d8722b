import EditorBridge.Proofs.Json.Literal

/-!
# The parts of a text

The lexer takes in a text part by part: the characters of a string, whole strings, numbers and
words. What it makes of a part is stated together with the rest of the text (`lex`), and in both
directions: a part that is written as the grammar says takes the lexer past it, and if the lexer
comes to the end of a text from inside a part, then the text begins with what is missing of the
part. The pairs are `lex_unicode` and `lex_unicode_inv` for an escape by number, `lex_stands` and
`lex_text_inv` for a character, `lex_areWritten` and `exists_areWritten` for a string, `lex_scalar`
and `lex_word_inv`, `lex_number_inv` for what is no string.

A word or a number ends only with the character after it, which must not be one that could belong
to it (`Stops`). The lexer treats both alike (`Gathers`).
-/

namespace EditorBridge.Json

/-! ## The lexer -/

/-- All the tokens, if the lexer goes on with a text from where it is, and the text ends there. -/
def lex (l : Lexer) (cs : List Char) : Option (List Token) := (l.run cs).bind Lexer.finish

theorem lex_cons {l l' : Lexer} {c : Char} (h : l.step c = some l') (cs : List Char) :
    lex l (c :: cs) = lex l' cs := by
  rw [lex, Lexer.run, h]
  rfl

theorem lex_cons_inv {l : Lexer} {c : Char} {cs : List Char} {ts : List Token}
    (h : lex l (c :: cs) = some ts) : ∃ l', l.step c = some l' ∧ lex l' cs = some ts := by
  rw [lex, Lexer.run] at h
  cases hstep : l.step c with
  | none => simp [hstep] at h
  | some l' =>
    rw [hstep] at h
    exact ⟨l', rfl, h⟩

/-! ## Escapes by number -/

theorem lex_unicode {n : Nat} {part : List Char} {high : Option Nat} {seen : List Char}
    {pending : Pending} (hpart : (Letter.unit n).IsWritten ('\\' :: 'u' :: part))
    (hend : endUnicode seen n high = some pending) (ts : List Token) (rest : List Char) :
    lex ⟨.unicode seen 4 0 high, ts⟩ (part ++ rest) = lex ⟨pending, ts⟩ rest := by
  cases hpart with
  | @unicode a b c d i j k l ha hb hc hd =>
    have hfirst : (Lexer.mk (.unicode seen 4 0 high) ts).step a =
        some ⟨.unicode seen 3 i high, ts⟩ := by
      simp [Lexer.step, ha]
    have hsecond : (Lexer.mk (.unicode seen 3 i high) ts).step b =
        some ⟨.unicode seen 2 (16 * i + j) high, ts⟩ := by
      simp [Lexer.step, hb]
    have hthird : (Lexer.mk (.unicode seen 2 (16 * i + j) high) ts).step c =
        some ⟨.unicode seen 1 (16 * (16 * i + j) + k) high, ts⟩ := by
      simp [Lexer.step, hc]
    have hfourth : (Lexer.mk (.unicode seen 1 (16 * (16 * i + j) + k) high) ts).step d =
        some ⟨pending, ts⟩ := by
      simp [Lexer.step, hd, hend]
    simp only [List.cons_append, List.nil_append]
    rw [lex_cons hfirst, lex_cons hsecond, lex_cons hthird, lex_cons hfourth]

/-- Before the last digit of an escape. -/
theorem lex_digit_inv {seen : List Char} {missing value : Nat} {high : Option Nat}
    {cs : List Char} {acc ts : List Token}
    (h : lex ⟨.unicode seen (missing + 2) value high, acc⟩ cs = some ts) :
    ∃ a i rest, cs = a :: rest ∧ Text.hexValue? a = some i ∧
      lex ⟨.unicode seen (missing + 1) (16 * value + i) high, acc⟩ rest = some ts := by
  cases cs with
  | nil => cases h
  | cons a rest =>
    obtain ⟨l', hstep, hrest⟩ := lex_cons_inv h
    cases hdigit : Text.hexValue? a with
    | none => simp [Lexer.step, hdigit] at hstep
    | some i =>
      have hmore : ¬ missing + 2 ≤ 1 := by omega
      simp only [Lexer.step, hdigit, if_neg hmore, Option.some.injEq] at hstep
      exact ⟨a, i, rest, rfl, hdigit, hstep ▸ hrest⟩

theorem lex_lastDigit_inv {seen : List Char} {value : Nat} {high : Option Nat}
    {cs : List Char} {acc ts : List Token}
    (h : lex ⟨.unicode seen 1 value high, acc⟩ cs = some ts) :
    ∃ a i rest pending, cs = a :: rest ∧ Text.hexValue? a = some i ∧
      endUnicode seen (16 * value + i) high = some pending ∧
      lex ⟨pending, acc⟩ rest = some ts := by
  cases cs with
  | nil => cases h
  | cons a rest =>
    obtain ⟨l', hstep, hrest⟩ := lex_cons_inv h
    cases hdigit : Text.hexValue? a with
    | none => simp [Lexer.step, hdigit] at hstep
    | some i =>
      cases hend : endUnicode seen (16 * value + i) high with
      | none => simp [Lexer.step, hdigit, hend] at hstep
      | some pending =>
        simp only [Lexer.step, hdigit, hend, Nat.le_refl, if_true, Option.some.injEq] at hstep
        exact ⟨a, i, rest, pending, rfl, hdigit, hend, hstep ▸ hrest⟩

theorem lex_unicode_inv {seen : List Char} {high : Option Nat} {cs : List Char}
    {acc ts : List Token} (h : lex ⟨.unicode seen 4 0 high, acc⟩ cs = some ts) :
    ∃ n part rest pending, cs = part ++ rest ∧
      (Letter.unit n).IsWritten ('\\' :: 'u' :: part) ∧
      endUnicode seen n high = some pending ∧ lex ⟨pending, acc⟩ rest = some ts := by
  obtain ⟨a, i, cs, rfl, ha, h⟩ := lex_digit_inv h
  obtain ⟨b, j, cs, rfl, hb, h⟩ := lex_digit_inv h
  obtain ⟨c, k, cs, rfl, hc, h⟩ := lex_digit_inv h
  obtain ⟨d, l, rest, pending, rfl, hd, hend, h⟩ := lex_lastDigit_inv h
  rw [Nat.mul_zero, Nat.zero_add] at hend
  exact ⟨_, [a, b, c, d], rest, pending, rfl, .unicode ha hb hc hd, hend, h⟩

/-! ## Characters of a string -/

namespace Letter

/-- The letters stand for one character: one letter, or the halves of a surrogate pair. -/
inductive Stands : List Letter → Char → Prop
  | char (c : Char) : Stands [.char c] c
  | unit {n : Nat} : isHigh n = false → isLow n = false → Stands [.unit n] (Char.ofNat n)
  | pair {high low : Nat} : isHigh high = true → isLow low = true →
      Stands [.unit high, .unit low] (pairChar high low)

theorem Stands.chars?_append {letters : List Letter} {c : Char} (h : Stands letters c)
    (rest : List Letter) : chars? (letters ++ rest) = (chars? rest).map (c :: ·) := by
  cases h with
  | char => rfl
  | unit hhigh hlow =>
    rcases rest with _ | ⟨_ | _, rest⟩ <;> simp [chars?, hhigh, hlow]
  | pair hhigh hlow => simp [chars?, hhigh, hlow]

theorem chars?_eq_some {letters : List Letter} {s : List Char} (h : chars? letters = some s) :
    letters = [] ∧ s = [] ∨
      ∃ first rest c cs, letters = first ++ rest ∧ Stands first c ∧ chars? rest = some cs ∧
        s = c :: cs := by
  cases letters with
  | nil => exact Or.inl ⟨rfl, (Option.some.inj h).symm⟩
  | cons letter rest =>
    right
    cases letter with
    | char c =>
      obtain ⟨cs, hcs, rfl⟩ := Option.map_eq_some_iff.mp h
      exact ⟨[.char c], rest, c, cs, rfl, .char c, hcs, rfl⟩
    | unit n =>
      cases hhigh : isHigh n with
      | true =>
        rcases rest with _ | ⟨c | low, rest⟩
        · simp [chars?, hhigh] at h
        · simp [chars?, hhigh] at h
        · cases hlow : isLow low with
          | true =>
            simp only [chars?, hhigh, hlow, if_true] at h
            obtain ⟨cs, hcs, rfl⟩ := Option.map_eq_some_iff.mp h
            exact ⟨[.unit n, .unit low], rest, _, cs, rfl, .pair hhigh hlow, hcs, rfl⟩
          | false => simp [chars?, hhigh, hlow] at h
      | false =>
        cases hlow : isLow n with
        | true => rcases rest with _ | ⟨_ | _, rest⟩ <;> simp [chars?, hhigh, hlow] at h
        | false =>
          have hunit : Stands [.unit n] (Char.ofNat n) := .unit hhigh hlow
          rw [← List.singleton_append, hunit.chars?_append] at h
          obtain ⟨cs, hcs, rfl⟩ := Option.map_eq_some_iff.mp h
          exact ⟨[.unit n], rest, _, cs, rfl, hunit, hcs, rfl⟩

theorem areWritten_append {first rest : List Letter} {cs : List Char} :
    AreWritten (first ++ rest) cs ↔
      ∃ part tail, cs = part ++ tail ∧ AreWritten first part ∧ AreWritten rest tail := by
  induction first generalizing cs with
  | nil =>
    constructor
    · exact fun h => ⟨[], cs, rfl, .nil, h⟩
    · rintro ⟨part, tail, rfl, hpart, htail⟩
      cases hpart
      exact htail
  | cons letter first ih =>
    constructor
    · rintro (_ | ⟨hletter, hrest⟩)
      obtain ⟨part, tail, rfl, hpart, htail⟩ := ih.mp hrest
      exact ⟨_, tail, (List.append_assoc _ _ _).symm, .cons hletter hpart, htail⟩
    · rintro ⟨part, tail, rfl, hpart, htail⟩
      cases hpart with
      | cons hletter hpart =>
        rw [List.append_assoc, List.cons_append]
        exact .cons hletter (ih.mpr ⟨_, tail, rfl, hpart, htail⟩)

theorem areWritten_singleton {letter : Letter} {cs : List Char} :
    AreWritten [letter] cs ↔ letter.IsWritten cs := by
  constructor
  · rintro (_ | ⟨hletter, hnil⟩)
    cases hnil
    rwa [List.append_nil]
  · intro h
    rw [← List.append_nil cs]
    exact .cons h .nil

theorem IsWritten.exists_digits {n : Nat} {part : List Char} (h : (Letter.unit n).IsWritten part) :
    ∃ digits, part = '\\' :: 'u' :: digits := by
  cases h
  exact ⟨_, rfl⟩

end Letter

/-- An escape by number, read where a backslash and a `u` begin one. -/
theorem lex_unit {n : Nat} {part : List Char} {high : Option Nat} {seen : List Char}
    {before pending : Pending} {ts : List Token} (hpart : (Letter.unit n).IsWritten part)
    (hbegin : ∀ cs, lex ⟨before, ts⟩ ('\\' :: 'u' :: cs) = lex ⟨.unicode seen 4 0 high, ts⟩ cs)
    (hend : endUnicode seen n high = some pending) (rest : List Char) :
    lex ⟨before, ts⟩ (part ++ rest) = lex ⟨pending, ts⟩ rest := by
  obtain ⟨digits, rfl⟩ := hpart.exists_digits
  rw [List.cons_append, List.cons_append, hbegin]
  exact lex_unicode hpart hend ts rest

/-- What is written of a character, read from inside a string. -/
theorem lex_stands {letters : List Letter} {c : Char} {part : List Char}
    (h : Letter.Stands letters c) (hpart : Letter.AreWritten letters part) (seen : List Char)
    (ts : List Token) (rest : List Char) :
    lex ⟨.text seen, ts⟩ (part ++ rest) = lex ⟨.text (c :: seen), ts⟩ rest := by
  cases h with
  | char =>
    cases Letter.areWritten_singleton.mp hpart with
    | plain hquote hslash hcontrol =>
      refine lex_cons ?_ rest
      simp [Lexer.step, hquote, hslash, Nat.not_lt.mpr hcontrol]
    | @escape e _ he =>
      have hslash : (Lexer.mk (.text seen) ts).step '\\' = some ⟨.escape seen, ts⟩ := rfl
      have hescape : (Lexer.mk (.escape seen) ts).step e = some ⟨.text (c :: seen), ts⟩ := by
        have hu : e ≠ 'u' := by
          rintro rfl
          cases he
        simp [Lexer.step, hu, he]
      rw [List.cons_append, lex_cons hslash, List.cons_append, lex_cons hescape, List.nil_append]
  | @unit n hhigh hlow =>
    have hend : endUnicode seen n none = some (.text (Char.ofNat n :: seen)) := by
      simp [endUnicode, hhigh, hlow]
    exact lex_unit (Letter.areWritten_singleton.mp hpart) (fun _ => rfl) hend rest
  | @pair high low hhigh hlow =>
    rw [← List.singleton_append] at hpart
    obtain ⟨part, tail, rfl, hpart, htail⟩ := Letter.areWritten_append.mp hpart
    have hfirst : endUnicode seen high none = some (.pair seen high) := by
      simp [endUnicode, hhigh]
    have hsecond : endUnicode seen low (some high) = some (.text (pairChar high low :: seen)) := by
      simp [endUnicode, hlow, pairChar]
    rw [List.append_assoc,
      lex_unit (Letter.areWritten_singleton.mp hpart) (fun _ => rfl) hfirst,
      lex_unit (Letter.areWritten_singleton.mp htail) (fun _ => rfl) hsecond]

theorem lex_pair_inv {seen cs : List Char} {high : Nat} {acc ts : List Token}
    (h : lex ⟨.pair seen high, acc⟩ cs = some ts) :
    ∃ low part rest, cs = part ++ rest ∧ (Letter.unit low).IsWritten part ∧ isLow low = true ∧
      lex ⟨.text (pairChar high low :: seen), acc⟩ rest = some ts := by
  cases cs with
  | nil => cases h
  | cons c cs =>
    obtain ⟨l, hslash, h⟩ := lex_cons_inv h
    simp only [Lexer.step, Option.ite_none_right_eq_some, Option.some.injEq] at hslash
    obtain ⟨rfl, rfl⟩ := hslash
    cases cs with
    | nil => cases h
    | cons c cs =>
      obtain ⟨l, hu, h⟩ := lex_cons_inv h
      simp only [Lexer.step, Option.ite_none_right_eq_some, Option.some.injEq] at hu
      obtain ⟨rfl, rfl⟩ := hu
      obtain ⟨low, part, rest, pending, rfl, hpart, hend, h⟩ := lex_unicode_inv h
      simp only [endUnicode, Option.ite_none_right_eq_some, Option.some.injEq] at hend
      obtain ⟨hlow, rfl⟩ := hend
      exact ⟨low, _, rest, rfl, hpart, hlow, h⟩

/-- What can follow a backslash and a `u`: one unit, or both halves of a pair. -/
theorem lex_unit_inv {seen cs : List Char} {acc ts : List Token}
    (h : lex ⟨.unicode seen 4 0 none, acc⟩ cs = some ts) :
    ∃ letters c part rest, cs = part ++ rest ∧ Letter.Stands letters c ∧
      Letter.AreWritten letters ('\\' :: 'u' :: part) ∧
      lex ⟨.text (c :: seen), acc⟩ rest = some ts := by
  obtain ⟨n, part, rest, pending, rfl, hpart, hend, h⟩ := lex_unicode_inv h
  cases hhigh : isHigh n with
  | true =>
    simp only [endUnicode, hhigh, if_true, Option.some.injEq] at hend
    subst hend
    obtain ⟨low, tail, rest, rfl, htail, hlow, h⟩ := lex_pair_inv h
    refine ⟨[.unit n, .unit low], _, part ++ tail, rest, ?_, .pair hhigh hlow, ?_, h⟩
    · rw [List.append_assoc]
    · exact .cons hpart (Letter.areWritten_singleton.mpr htail)
  | false =>
    cases hlow : isLow n with
    | true => simp [endUnicode, hhigh, hlow] at hend
    | false =>
      simp only [endUnicode, hhigh, hlow, Bool.false_eq_true, if_false, Option.some.injEq] at hend
      subst hend
      exact ⟨[.unit n], _, part, rest, rfl, .unit hhigh hlow,
        Letter.areWritten_singleton.mpr hpart, h⟩

/-- What can follow a backslash. -/
theorem lex_escape_inv {seen cs : List Char} {acc ts : List Token}
    (h : lex ⟨.escape seen, acc⟩ cs = some ts) :
    ∃ letters c part rest, cs = part ++ rest ∧ Letter.Stands letters c ∧
      Letter.AreWritten letters ('\\' :: part) ∧ lex ⟨.text (c :: seen), acc⟩ rest = some ts := by
  cases cs with
  | nil => cases h
  | cons e cs =>
    obtain ⟨l, hstep, h⟩ := lex_cons_inv h
    by_cases hu : e = 'u'
    · subst hu
      obtain rfl := Option.some.inj hstep
      obtain ⟨letters, c, part, rest, rfl, hstands, hpart, h⟩ := lex_unit_inv h
      exact ⟨letters, c, 'u' :: part, rest, rfl, hstands, hpart, h⟩
    · simp only [Lexer.step, if_neg hu] at hstep
      cases hd : unescape? e with
      | none => simp [hd] at hstep
      | some d =>
        rw [hd] at hstep
        obtain rfl := Option.some.inj hstep
        exact ⟨[.char d], d, [e], cs, rfl, .char d,
          Letter.areWritten_singleton.mpr (.escape hd), h⟩

/-- What can follow inside a string: its end, or a character. -/
theorem lex_text_inv {seen cs : List Char} {acc ts : List Token}
    (h : lex ⟨.text seen, acc⟩ cs = some ts) :
    (∃ rest, cs = '"' :: rest ∧
        lex ⟨.nothing, .string (String.ofList seen.reverse) :: acc⟩ rest = some ts) ∨
      ∃ letters c part rest, cs = part ++ rest ∧ part ≠ [] ∧ Letter.Stands letters c ∧
        Letter.AreWritten letters part ∧ lex ⟨.text (c :: seen), acc⟩ rest = some ts := by
  cases cs with
  | nil => cases h
  | cons c cs =>
    obtain ⟨l, hstep, h⟩ := lex_cons_inv h
    simp only [Lexer.step] at hstep
    split_ifs at hstep with hquote hslash hcontrol
    · obtain rfl := Option.some.inj hstep
      exact Or.inl ⟨cs, by rw [hquote], h⟩
    · obtain rfl := Option.some.inj hstep
      obtain ⟨letters, d, part, rest, rfl, hstands, hpart, h⟩ := lex_escape_inv h
      exact Or.inr ⟨letters, d, c :: part, rest, rfl, List.cons_ne_nil _ _, hstands,
        hslash ▸ hpart, h⟩
    · obtain rfl := Option.some.inj hstep
      exact Or.inr ⟨[.char c], c, [c], cs, rfl, List.cons_ne_nil _ _, .char c,
        Letter.areWritten_singleton.mpr (.plain hquote hslash (Nat.not_lt.mp hcontrol)), h⟩

/-! ## Strings -/

/-- A string is read to its end. -/
theorem lex_areWritten {letters : List Letter} {body s : List Char}
    (h : Letter.AreWritten letters body) (hs : Letter.chars? letters = some s) (seen : List Char)
    (acc : List Token) (rest : List Char) :
    lex ⟨.text seen, acc⟩ (body ++ '"' :: rest) =
      lex ⟨.nothing, .string (String.ofList (seen.reverse ++ s)) :: acc⟩ rest := by
  induction s generalizing letters body seen with
  | nil =>
    obtain ⟨rfl, -⟩ | ⟨_, _, _, _, -, -, -, hcons⟩ := Letter.chars?_eq_some hs
    · cases h
      rw [List.append_nil]
      rfl
    · cases hcons
  | cons c s ih =>
    obtain ⟨-, hnil⟩ | ⟨first, letters, d, cs, rfl, hstands, hrest, hcons⟩ :=
      Letter.chars?_eq_some hs
    · cases hnil
    · obtain ⟨rfl, rfl⟩ := List.cons.inj hcons
      obtain ⟨part, tail, rfl, hpart, htail⟩ := Letter.areWritten_append.mp h
      rw [List.append_assoc, lex_stands hstands hpart, ih htail hrest]
      simp

theorem exists_areWritten {seen cs : List Char} {acc ts : List Token}
    (h : lex ⟨.text seen, acc⟩ cs = some ts) :
    ∃ letters body rest s, cs = body ++ '"' :: rest ∧ Letter.AreWritten letters body ∧
      Letter.chars? letters = some s ∧
      lex ⟨.nothing, .string (String.ofList (seen.reverse ++ s)) :: acc⟩ rest = some ts := by
  induction hlength : cs.length using Nat.strong_induction_on generalizing seen cs with
  | h n ih =>
    obtain ⟨rest, rfl, h⟩ | ⟨first, c, part, tail, rfl, hne, hstands, hpart, h⟩ := lex_text_inv h
    · refine ⟨[], [], rest, [], rfl, .nil, rfl, ?_⟩
      rwa [List.append_nil]
    · have hshorter : tail.length < n := by
        have hpos := List.length_pos_iff.mpr hne
        rw [← hlength, List.length_append]
        omega
      obtain ⟨letters, body, rest, s, rfl, hbody, hs, h⟩ := ih _ hshorter h rfl
      refine ⟨first ++ letters, part ++ body, rest, c :: s, ?_,
        Letter.areWritten_append.mpr ⟨part, body, rfl, hpart, hbody⟩, ?_, ?_⟩
      · rw [List.append_assoc]
      · rw [hstands.chars?_append, hs, Option.map_some]
      · rwa [List.reverse_cons, List.append_assoc, List.singleton_append] at h

/-! ## Numbers and words -/

/-- The text does not go on with a character that can belong to a word or a number. -/
def Stops (rest : List Char) : Prop := ∀ c ∈ rest.head?, c.isLower = false ∧ isNumberChar c = false

/-- The lexer gathers characters as long as they belong to a word or a number, and then reads the
value that they name. -/
structure Gathers (kind : List Char → Pending) (belongs : Char → Bool)
    (value? : List Char → Option Json) : Prop where
  step : ∀ seen acc c, (Lexer.mk (kind seen) acc).step c =
    if belongs c then some ⟨kind (c :: seen), acc⟩
    else (value? seen.reverse).bind fun v => Lexer.begin (.scalar v :: acc) c
  finish : ∀ seen acc, (Lexer.mk (kind seen) acc).finish =
    (value? seen.reverse).map fun v => (Token.scalar v :: acc).reverse

def numberValue? (cs : List Char) : Option Json := (Number.ofChars? cs).map .number

theorem gathers_word : Gathers .word Char.isLower word? := by
  refine ⟨?_, fun seen acc => rfl⟩
  intro seen acc c
  simp only [Lexer.step]
  cases word? seen.reverse <;> rfl

theorem gathers_number : Gathers .number isNumberChar numberValue? := by
  constructor
  · intro seen acc c
    simp only [Lexer.step, numberValue?]
    cases Number.ofChars? seen.reverse <;> rfl
  · intro seen acc
    simp only [Lexer.finish, numberValue?]
    cases Number.ofChars? seen.reverse <;> rfl

namespace Gathers

variable {kind : List Char → Pending} {belongs : Char → Bool} {value? : List Char → Option Json}

theorem lex_append (h : Gathers kind belongs value?) {cs : List Char}
    (hcs : ∀ c ∈ cs, belongs c = true) (seen : List Char) (ts : List Token) (rest : List Char) :
    lex ⟨kind seen, ts⟩ (cs ++ rest) = lex ⟨kind (cs.reverse ++ seen), ts⟩ rest := by
  induction cs generalizing seen with
  | nil => rfl
  | cons c cs ih =>
    obtain ⟨hc, hcs⟩ := List.forall_mem_cons.mp hcs
    have hstep : (Lexer.mk (kind seen) ts).step c = some ⟨kind (c :: seen), ts⟩ := by
      rw [h.step, if_pos hc]
    rw [List.cons_append, lex_cons hstep, ih hcs]
    simp

/-- A word or a number is complete when the next character cannot belong to it. -/
theorem lex_end (h : Gathers kind belongs value?) {seen : List Char} {v : Json}
    (hv : value? seen.reverse = some v) (ts : List Token) {rest : List Char}
    (hrest : ∀ c ∈ rest.head?, belongs c = false) :
    lex ⟨kind seen, ts⟩ rest = lex ⟨.nothing, .scalar v :: ts⟩ rest := by
  cases rest with
  | nil =>
    change (Lexer.mk (kind seen) ts).finish = _
    rw [h.finish, hv]
    rfl
  | cons c rest =>
    have hc : ¬ belongs c = true := by
      rw [hrest c rfl]
      exact Bool.false_ne_true
    have hstep : (Lexer.mk (kind seen) ts).step c =
        (Lexer.mk .nothing (.scalar v :: ts)).step c := by
      rw [h.step, if_neg hc, hv]
      rfl
    rw [lex, lex, Lexer.run, Lexer.run, hstep]

/-- What is missing of a word or a number. -/
theorem lex_inv (h : Gathers kind belongs value?) {seen cs : List Char} {acc ts : List Token}
    (hlex : lex ⟨kind seen, acc⟩ cs = some ts) :
    ∃ part rest v, cs = part ++ rest ∧ value? (seen.reverse ++ part) = some v ∧
      lex ⟨.nothing, .scalar v :: acc⟩ rest = some ts := by
  induction cs generalizing seen with
  | nil =>
    change (Lexer.mk (kind seen) acc).finish = some ts at hlex
    rw [h.finish] at hlex
    obtain ⟨v, hv, rfl⟩ := Option.map_eq_some_iff.mp hlex
    refine ⟨[], [], v, rfl, ?_, rfl⟩
    rwa [List.append_nil]
  | cons c cs ih =>
    obtain ⟨l, hstep, hrest⟩ := lex_cons_inv hlex
    rw [h.step] at hstep
    by_cases hc : belongs c = true
    · rw [if_pos hc] at hstep
      obtain rfl := Option.some.inj hstep
      obtain ⟨part, rest, v, rfl, hv, hlex⟩ := ih hrest
      refine ⟨c :: part, rest, v, rfl, ?_, hlex⟩
      rwa [List.reverse_cons, List.append_assoc, List.singleton_append] at hv
    · rw [if_neg hc] at hstep
      obtain ⟨v, hv, hbegin⟩ := Option.bind_eq_some_iff.mp hstep
      refine ⟨[], c :: cs, v, rfl, by rwa [List.append_nil], ?_⟩
      rw [lex_cons (l := ⟨.nothing, _⟩) hbegin, hrest]

end Gathers

theorem begin?_of_numberStart {c : Char} (h : c.isDigit = true ∨ c = '-') :
    begin? c = some (.number [c], none) := by
  have hne : ∀ d : Char, d.isDigit = false → d ≠ '-' → c ≠ d := by
    rintro d hdigit hminus rfl
    rcases h with h | h
    · rw [hdigit] at h
      cases h
    · exact hminus h
  have hstart : (c.isDigit || c == '-') = true := by simpa using h
  unfold begin? isSpace
  rw [if_pos hstart]
  simp [hne]

/-- A number, a truth value or null is one token. -/
theorem lex_scalar {s : Scalar} {cs : List Char} {v : Json} (h : s.IsWritten cs)
    (hv : s.value? = some v) (ts : List Token) {rest : List Char} (hrest : Stops rest) :
    lex ⟨.nothing, ts⟩ (cs ++ rest) = lex ⟨.nothing, .scalar v :: ts⟩ rest := by
  have hword : ∀ {seen : List Char} {v : Json}, word? seen.reverse = some v →
      lex ⟨.word seen, ts⟩ rest = lex ⟨.nothing, .scalar v :: ts⟩ rest :=
    fun hv => gathers_word.lex_end hv ts fun c hc => (hrest c hc).1
  cases h with
  | null =>
    obtain rfl := Option.some.inj hv
    exact hword (by rfl)
  | true =>
    obtain rfl := Option.some.inj hv
    exact hword (by rfl)
  | false =>
    obtain rfl := Option.some.inj hv
    exact hword (by rfl)
  | @number l _ hl =>
    obtain ⟨n, hn, rfl⟩ := Option.map_eq_some_iff.mp hv
    have hread := Number.ofChars?_eq_some_iff.mpr ⟨l, hl, hn⟩
    obtain ⟨c, cs, rfl, hc, hcs⟩ := hl.exists_cons
    have hstep : (Lexer.mk .nothing ts).step c = some ⟨.number [c], ts⟩ := by
      simp [Lexer.step, Lexer.begin, begin?_of_numberStart hc]
    rw [List.cons_append, lex_cons hstep, gathers_number.lex_append hcs]
    refine gathers_number.lex_end ?_ ts fun c hc => (hrest c hc).2
    simpa [numberValue?] using hread

theorem lex_word_inv {seen cs : List Char} {acc ts : List Token}
    (h : lex ⟨.word seen, acc⟩ cs = some ts) :
    ∃ s part rest v, cs = part ++ rest ∧ Scalar.IsWritten s (seen.reverse ++ part) ∧
      s.value? = some v ∧ lex ⟨.nothing, .scalar v :: acc⟩ rest = some ts := by
  obtain ⟨part, rest, v, rfl, hv, h⟩ := gathers_word.lex_inv h
  unfold word? at hv
  split at hv
  · rename_i hcs
    exact ⟨.null, part, rest, v, rfl, hcs ▸ .null, hv, h⟩
  · rename_i hcs
    exact ⟨.bool true, part, rest, v, rfl, hcs ▸ .true, hv, h⟩
  · rename_i hcs
    exact ⟨.bool false, part, rest, v, rfl, hcs ▸ .false, hv, h⟩
  · cases hv

theorem lex_number_inv {seen cs : List Char} {acc ts : List Token}
    (h : lex ⟨.number seen, acc⟩ cs = some ts) :
    ∃ s part rest v, cs = part ++ rest ∧ Scalar.IsWritten s (seen.reverse ++ part) ∧
      s.value? = some v ∧ lex ⟨.nothing, .scalar v :: acc⟩ rest = some ts := by
  obtain ⟨part, rest, v, rfl, hv, h⟩ := gathers_number.lex_inv h
  obtain ⟨n, hn, rfl⟩ := Option.map_eq_some_iff.mp hv
  obtain ⟨l, hl, hvalue⟩ := Number.ofChars?_eq_some_iff.mp hn
  exact ⟨.number l, part, rest, _, rfl, .number hl,
    Option.map_eq_some_iff.mpr ⟨n, hvalue, rfl⟩, h⟩

end EditorBridge.Json
