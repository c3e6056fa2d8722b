import EditorBridge.Text.Numeral
import Mathlib.Data.List.Basic
import Mathlib.Data.List.Induction
import Mathlib.Data.List.TakeWhile
import Mathlib.Data.Nat.Digits.Defs

/-!
# Which texts are numerals

Digits are read from the left, and their value is the sum of the digits by their places
(`digitsValue_eq`). `Denotes text n` says that a text is a numeral of `n` with white space around
it: the text may begin and end with white space, and has a plus sign or none, and then digits.

An unsigned numeral is looked for in what remains of a text without the white space at its ends. A
sign and a digit are no white space, so nothing of the numeral itself is lost, and the numeral is
found just if the text is one and the number is within the limit (`unsigned?_trim_eq_some_iff`).

The largest number of a word is the only one without a successor (`successor_of_lt`,
`successor_of_le`).
-/

namespace EditorBridge

namespace Text

/-! ## Digits -/

theorem digitsValue_concat (cs : List Char) (c : Char) :
    digitsValue (cs ++ [c]) = 10 * digitsValue cs + digitValue c := List.foldl_append

/-- Each digit counts ten times as much as the one after it. -/
theorem digitsValue_eq (cs : List Char) :
    digitsValue cs = Nat.ofDigits 10 (cs.reverse.map digitValue) := by
  induction cs using List.reverseRecOn with
  | nil => rfl
  | append_singleton cs c ih =>
    rw [digitsValue_concat, List.reverse_append, List.reverse_singleton, List.singleton_append,
      List.map_cons, Nat.ofDigits_cons, ← ih, Nat.add_comm]

theorem numeral?_eq_some_iff {cs : List Char} {n : Nat} :
    numeral? cs = some n ↔ cs ≠ [] ∧ (∀ c ∈ cs, c.isDigit = true) ∧
      n = Nat.ofDigits 10 (cs.reverse.map digitValue) := by
  rw [← digitsValue_eq, numeral?]
  by_cases h : cs ≠ [] ∧ cs.all Char.isDigit = true
  · rw [if_pos h]
    exact ⟨fun hvalue => ⟨h.1, List.all_eq_true.mp h.2, (Option.some.inj hvalue).symm⟩,
      fun hvalue => congrArg some hvalue.2.2.symm⟩
  · rw [if_neg h]
    exact ⟨fun hnone => (nomatch hnone),
      fun hvalue => absurd ⟨hvalue.1, List.all_eq_true.mpr hvalue.2.1⟩ h⟩

theorem numeral?_toDigits (n : Nat) : numeral? (Nat.toDigits 10 n) = some n := by
  have hdigits : (Nat.toDigits 10 n).all Char.isDigit = true :=
    List.all_eq_true.mpr fun _ hc => Nat.isDigit_of_mem_toDigits (by decide) (by decide) hc
  have hvalue : digitsValue (Nat.toDigits 10 n) = n := by
    rw [digitsValue]
    exact Nat.ofDigitChars_eq_foldl.symm.trans Nat.ofDigitChars_ten_toDigits
  rw [numeral?, if_pos ⟨Nat.toDigits_ne_nil, hdigits⟩, hvalue]

/-! ## Signs -/

theorem head?_ne_plus {cs : List Char} {n : Nat} (h : numeral? cs = some n) :
    cs.head? ≠ some '+' := by
  intro hhead
  obtain ⟨-, hdigits, -⟩ := numeral?_eq_some_iff.mp h
  exact absurd (hdigits '+' (List.mem_of_mem_head? hhead)) (by decide)

/-- A sign is no part of the digits. -/
theorem unsigned?_eq_some_iff {limit : Nat} {cs : List Char} {n : Nat} :
    unsigned? limit cs = some n ↔ ∃ sign digits, cs = sign ++ digits ∧
      (sign = [] ∨ sign = ['+']) ∧ numeral? digits = some n ∧ n ≤ limit := by
  simp only [unsigned?, Option.filter_eq_some_iff, decide_eq_true_eq]
  constructor
  · rintro ⟨hvalue, hlimit⟩
    split at hvalue
    · rename_i rest
      exact ⟨['+'], rest, rfl, Or.inr rfl, hvalue, hlimit⟩
    · exact ⟨[], cs, rfl, Or.inl rfl, hvalue, hlimit⟩
  · rintro ⟨sign, digits, rfl, rfl | rfl, hvalue, hlimit⟩
    · refine ⟨?_, hlimit⟩
      -- without a sign the text begins with a digit, so no sign is taken from it
      split
      · rename_i rest hplus
        rw [List.nil_append] at hplus
        exact absurd (congrArg List.head? hplus) (head?_ne_plus hvalue)
      · exact hvalue
    · exact ⟨hvalue, hlimit⟩

/-! ## White space -/

theorem not_isBlank_of_isDigit {c : Char} (h : c.isDigit = true) : isBlank c = false := by
  have hrange : 48 ≤ c.toNat ∧ c.toNat ≤ 57 := by
    simpa [Char.isDigit, UInt32.le_iff_toNat_le] using h
  simp only [isBlank, Bool.or_eq_false_iff, Bool.and_eq_false_iff, beq_eq_false_iff_ne,
    decide_eq_false_iff_not]
  omega

/-- Only white space is taken away, and only at both ends. -/
theorem exists_trim (cs : List Char) : ∃ left right, (∀ c ∈ left, isBlank c = true) ∧
    (∀ c ∈ right, isBlank c = true) ∧ cs = left ++ trim cs ++ right := by
  refine ⟨cs.takeWhile isBlank, ((trimLeft cs).reverse.takeWhile isBlank).reverse, ?_, ?_, ?_⟩
  · intro c hc
    exact List.mem_takeWhile_imp hc
  · intro c hc
    exact List.mem_takeWhile_imp (List.mem_reverse.mp hc)
  · have hright : trim cs ++ ((trimLeft cs).reverse.takeWhile isBlank).reverse = trimLeft cs := by
      rw [trim, trimRight, ← List.reverse_append, List.takeWhile_append_dropWhile,
        List.reverse_reverse]
    calc cs = cs.takeWhile isBlank ++ trimLeft cs := List.takeWhile_append_dropWhile.symm
      _ = cs.takeWhile isBlank ++
          (trim cs ++ ((trimLeft cs).reverse.takeWhile isBlank).reverse) := by rw [hright]
      _ = _ := (List.append_assoc _ _ _).symm

theorem dropWhile_isBlank {cs : List Char} (h : ∀ c ∈ cs.head?, isBlank c = false) :
    cs.dropWhile isBlank = cs := by
  cases cs with
  | nil => rfl
  | cons c cs => exact List.dropWhile_cons_of_neg (by simp [h c rfl])

/-- White space is taken away up to a character that is none, from both sides. -/
theorem trim_append {left core right : List Char} (hleft : ∀ c ∈ left, isBlank c = true)
    (hright : ∀ c ∈ right, isBlank c = true) (hne : core ≠ [])
    (hfirst : ∀ c ∈ core.head?, isBlank c = false)
    (hlast : ∀ c ∈ core.getLast?, isBlank c = false) : trim (left ++ core ++ right) = core := by
  have htrimLeft : trimLeft (left ++ core ++ right) = core ++ right := by
    rw [trimLeft, List.append_assoc, List.dropWhile_append_of_pos hleft]
    refine dropWhile_isBlank fun c hc => hfirst c ?_
    rwa [List.head?_append_of_ne_nil _ hne] at hc
  rw [trim, htrimLeft, trimRight, List.reverse_append,
    List.dropWhile_append_of_pos fun c hc => hright c (List.mem_reverse.mp hc), dropWhile_isBlank,
    List.reverse_reverse]
  rwa [List.head?_reverse]

/-! ## Numerals with white space around them -/

/-- The text is a numeral of `n`: white space, a plus sign or none, digits, white space. -/
inductive Denotes : List Char → Nat → Prop
  | intro {left sign digits right : List Char} : (∀ c ∈ left, isBlank c = true) →
      sign = [] ∨ sign = ['+'] → digits ≠ [] → (∀ c ∈ digits, c.isDigit = true) →
      (∀ c ∈ right, isBlank c = true) →
      Denotes (left ++ (sign ++ digits) ++ right) (Nat.ofDigits 10 (digits.reverse.map digitValue))

theorem trim_numeral {left sign digits right : List Char} (hleft : ∀ c ∈ left, isBlank c = true)
    (hsign : sign = [] ∨ sign = ['+']) (hne : digits ≠ [])
    (hdigits : ∀ c ∈ digits, c.isDigit = true) (hright : ∀ c ∈ right, isBlank c = true) :
    trim (left ++ (sign ++ digits) ++ right) = sign ++ digits := by
  have hdigit : ∀ c ∈ digits, isBlank c = false := fun c hc => not_isBlank_of_isDigit (hdigits c hc)
  refine trim_append hleft hright (List.append_ne_nil_of_right_ne_nil sign hne) ?_ ?_
  · rcases hsign with rfl | rfl
    · exact fun c hc => hdigit c (List.mem_of_mem_head? hc)
    · rintro c hc
      obtain rfl : '+' = c := Option.some.inj hc
      decide
  · intro c hc
    rw [List.getLast?_append_of_ne_nil _ hne] at hc
    exact hdigit c (List.mem_of_getLast? hc)

/-- **A numeral is found just if the text is one,** and its number is within the limit. -/
theorem unsigned?_trim_eq_some_iff {limit : Nat} {cs : List Char} {n : Nat} :
    unsigned? limit (trim cs) = some n ↔ Denotes cs n ∧ n ≤ limit := by
  rw [unsigned?_eq_some_iff]
  constructor
  · rintro ⟨sign, digits, htrim, hsign, hvalue, hlimit⟩
    obtain ⟨left, right, hleft, hright, hcs⟩ := exists_trim cs
    obtain ⟨hne, hdigits, rfl⟩ := numeral?_eq_some_iff.mp hvalue
    rw [hcs, htrim]
    exact ⟨.intro hleft hsign hne hdigits hright, hlimit⟩
  · rintro ⟨⟨hleft, hsign, hne, hdigits, hright⟩, hlimit⟩
    rw [trim_numeral hleft hsign hne hdigits hright]
    exact ⟨_, _, rfl, hsign, numeral?_eq_some_iff.mpr ⟨hne, hdigits, rfl⟩, hlimit⟩

/-- The digits of a number are a numeral of it. -/
theorem denotes_toDigits (n : Nat) : Denotes (Nat.toDigits 10 n) n := by
  obtain ⟨hne, hdigits, hvalue⟩ := numeral?_eq_some_iff.mp (numeral?_toDigits n)
  have hblank : ∀ c ∈ ([] : List Char), isBlank c = true := fun _ hc => absurd hc List.not_mem_nil
  have h := Denotes.intro hblank (Or.inl rfl) hne hdigits hblank
  rwa [List.nil_append, List.nil_append, List.append_nil, ← hvalue] at h

/-! ## Words -/

variable {limit n : Nat}

theorem successor_of_lt (h : n < limit) : successor limit n = .ok (n + 1) := if_pos h

theorem successor_of_le (h : limit ≤ n) : successor limit n = .error .addition :=
  if_neg (Nat.not_lt.mpr h)

end Text

namespace Overflow

variable {α β : Type}

/-- There is only one way to overflow. -/
theorem eq_error_iff {r : Except Overflow α} : r = .error .addition ↔ ¬ ∃ a, r = .ok a := by
  cases r with
  | error overflow =>
    cases overflow
    exact iff_of_true rfl fun ⟨_, h⟩ => nomatch h
  | ok a => exact iff_of_false (fun h => nomatch h) fun h => h ⟨a, rfl⟩

theorem mapM_eq_ok_iff {f : α → Except Overflow β} {as : List α} {bs : List β} :
    as.mapM f = .ok bs ↔ as.map f = bs.map .ok := by
  induction as generalizing bs with
  | nil =>
    rw [List.mapM_nil, List.map_nil, eq_comm (a := []), List.map_eq_nil_iff]
    exact ⟨fun h => (Except.ok.inj h).symm, fun h => congrArg Except.ok h.symm⟩
  | cons a as ih =>
    rw [List.mapM_cons, List.map_cons]
    cases f a with
    | error overflow => cases bs <;> exact iff_of_false (fun h => nomatch h) fun h => nomatch h
    | ok b =>
      constructor
      · intro h
        cases hrest : as.mapM f with
        | error overflow =>
          rw [hrest] at h
          cases h
        | ok rest =>
          rw [hrest] at h
          obtain rfl : b :: rest = bs := Except.ok.inj h
          rw [List.map_cons, ih.mp hrest]
      · intro h
        obtain ⟨b', rest, rfl, hb, hrest⟩ := List.map_eq_cons_iff.mp h.symm
        obtain rfl := Except.ok.inj hb
        rw [ih.mpr hrest.symm]
        rfl

/-- A list of computations comes to nothing as soon as one of them overflows. -/
theorem mapM_eq_error_iff {f : α → Except Overflow β} {as : List α} :
    as.mapM f = .error .addition ↔ ∃ a ∈ as, f a = .error .addition := by
  induction as with
  | nil => exact iff_of_false (fun h => nomatch h) fun ⟨_, h, _⟩ => absurd h List.not_mem_nil
  | cons a as ih =>
    rw [List.mapM_cons, List.exists_mem_cons_iff, ← ih]
    cases f a with
    | error overflow =>
      cases overflow
      exact iff_of_true rfl (Or.inl rfl)
    | ok b =>
      cases as.mapM f with
      | error overflow =>
        cases overflow
        exact iff_of_true rfl (Or.inr rfl)
      | ok rest => exact iff_of_false (fun h => nomatch h) fun h => h.elim nofun nofun

end Overflow

end EditorBridge
