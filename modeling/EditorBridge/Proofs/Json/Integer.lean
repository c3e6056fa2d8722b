import EditorBridge.Json.Render
import EditorBridge.Proofs.Json.Literal

/-!
# Integers in JSON

An integer that fits a 64-bit word, signed or unsigned, is written as its decimal digits, with a
minus sign in front of them if it is negative. That is how the literal of its sign and its digits is
written (`Literal.isWritten_toDigits`), the digits are added up without a rest
(`Literal.absorb_eq`), and so the literal names the number (`Number.exists_isWritten_render`).
-/

namespace EditorBridge.Json

open Text

namespace Literal

/-! ## Digits -/

theorem le_ofDigitChars (n : Nat) (cs : List Char) : n ≤ Nat.ofDigitChars 10 cs n := by
  induction cs generalizing n with
  | nil => exact Nat.le_of_eq Nat.ofDigitChars_nil.symm
  | cons c cs ih =>
    rw [Nat.ofDigitChars_cons]
    have hstep := ih (10 * n + (c.toNat - '0'.toNat))
    omega

/-- Digits whose value fits are all added up. -/
theorem absorb_eq {n : Nat} {cs : List Char} (h : Nat.ofDigitChars 10 cs n ≤ maxWord64) :
    absorb n cs = (Nat.ofDigitChars 10 cs n, 0) := by
  induction cs generalizing n with
  | nil => rfl
  | cons c cs ih =>
    rw [Nat.ofDigitChars_cons] at h ⊢
    have hfits : 10 * n + digitValue c ≤ maxWord64 :=
      Nat.le_trans (le_ofDigitChars _ cs) h
    rw [absorb, if_pos hfits]
    exact ih h

theorem isDigit_of_mem_toDigits {n : Nat} {c : Char} (hc : c ∈ Nat.toDigits 10 n) :
    c.isDigit = true :=
  Nat.isDigit_of_mem_toDigits (by decide) (by decide) hc

/-- Only zero begins with a zero. -/
theorem exists_toDigits_eq_cons {n : Nat} (hn : 0 < n) :
    ∃ c cs, Nat.toDigits 10 n = c :: cs ∧ c ≠ '0' := by
  induction n using Nat.base_induction 10 (by decide) with
  | single n hlt =>
    have hdigit : ∀ n < 10, 0 < n → n.digitChar ≠ '0' := by decide
    exact ⟨n.digitChar, [], Nat.toDigits_of_lt_base hlt, hdigit n hlt hn⟩
  | digit n k hk hpos ih =>
    obtain ⟨c, cs, hcs, hc⟩ := ih hpos
    refine ⟨c, cs ++ Nat.toDigits 10 k, ?_, hc⟩
    rw [← Nat.toDigits_append_toDigits (by decide) hpos hk, hcs, List.cons_append]

theorem isInteger_toDigits (n : Nat) : IsInteger (Nat.toDigits 10 n) := by
  refine ⟨fun c hc => isDigit_of_mem_toDigits hc, ?_⟩
  cases n with
  | zero => exact Or.inl (Nat.toDigits_zero 10)
  | succ n => exact Or.inr (exists_toDigits_eq_cons (Nat.succ_pos n))

/-! ## Literals -/

theorem isWritten_toDigits (negative : Bool) (n : Nat) :
    IsWritten ⟨negative, Nat.toDigits 10 n, [], none⟩ (minus negative ++ Nat.toDigits 10 n) := by
  have hwritten := @IsWritten.intro ⟨negative, Nat.toDigits 10 n, [], none⟩ [] []
    (isInteger_toDigits n) .absent .absent
  rwa [List.append_nil, List.append_nil] at hwritten

theorem value?_digits {negative : Bool} {n : Nat} (h : n ≤ maxWord64)
    (hsign : negative = true → 0 < n ∧ n ≤ maxWord64 / 2 + 1) :
    value? ⟨negative, Nat.toDigits 10 n, [], none⟩ =
      some (.integer (if negative then -n else n)) := by
  have habsorb : absorb 0 (Nat.toDigits 10 n) = (n, 0) := by
    have hvalue : Nat.ofDigitChars 10 (Nat.toDigits 10 n) 0 = n := Nat.ofDigitChars_ten_toDigits
    rw [absorb_eq (hvalue.symm ▸ h), hvalue]
  unfold value?
  rw [habsorb]
  cases negative with
  | false => simp
  | true => simp [hsign rfl]

end Literal

namespace Number

/-- The number is an integer of 64 bits, signed or unsigned. -/
def IsWord : Number → Prop
  | .integer n => -(maxWord64 / 2 + 1 : Nat) ≤ n ∧ n ≤ maxWord64
  | .double _ => False

instance : (n : Number) → Decidable n.IsWord
  | .integer _ => inferInstanceAs (Decidable (_ ∧ _))
  | .double _ => inferInstanceAs (Decidable False)

theorem render_ofNat (n : Nat) : (integer n).render = Nat.toDigits 10 n := by
  change (Nat.repr n).toList = Nat.toDigits 10 n
  exact Nat.toList_repr

theorem render_negSucc (n : Nat) :
    (integer (Int.negSucc n)).render = '-' :: Nat.toDigits 10 (n + 1) := by
  change ("-" ++ Nat.repr (n + 1)).toList = '-' :: Nat.toDigits 10 (n + 1)
  rw [String.toList_append, Nat.toList_repr]
  rfl

/-- **An integer of 64 bits is written as a literal that names it.** -/
theorem exists_isWritten_render {n : Number} (h : n.IsWord) :
    ∃ l : Literal, l.IsWritten n.render ∧ l.value? = some n := by
  cases n with
  | double x => exact absurd h id
  | integer n =>
    obtain ⟨hlow, hhigh⟩ := h
    cases n with
    | ofNat n =>
      have hn : n ≤ maxWord64 := Int.ofNat_le.mp hhigh
      have hvalue := @Literal.value?_digits false n hn fun h => absurd h Bool.false_ne_true
      change ∃ l : Literal, l.IsWritten (integer n).render ∧ _
      rw [render_ofNat]
      exact ⟨_, Literal.isWritten_toDigits false n, hvalue⟩
    | negSucc n =>
      have hn : n + 1 ≤ maxWord64 / 2 + 1 := by omega
      have hvalue := @Literal.value?_digits true (n + 1) (Nat.le_trans hn (by decide))
        fun _ => ⟨Nat.succ_pos n, hn⟩
      rw [render_negSucc]
      exact ⟨_, Literal.isWritten_toDigits true (n + 1), hvalue⟩

end Number

end EditorBridge.Json
