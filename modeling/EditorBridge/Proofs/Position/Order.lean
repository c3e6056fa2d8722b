import EditorBridge.Position
import Mathlib.Order.Defs.LinearOrder

/-!
# The order of positions

Positions are ordered by line, then by column. This is a linear order: `le_iff` and `lt_iff` say
what it means for the two numbers, and everything else is the theory of linear orders.
-/

namespace EditorBridge.Position

theorem le_iff {p q : Position} :
    p ≤ q ↔ p.line < q.line ∨ p.line = q.line ∧ p.col ≤ q.col := Iff.rfl

theorem lt_iff {p q : Position} :
    p < q ↔ p.line < q.line ∨ p.line = q.line ∧ p.col < q.col := Iff.rfl

theorem eq_iff {p q : Position} : p = q ↔ p.line = q.line ∧ p.col = q.col := by
  cases p
  cases q
  simp

instance : LinearOrder Position where
  le_refl p := by rw [le_iff]; omega
  le_trans p q r := by simp only [le_iff]; omega
  le_antisymm p q := by simp only [le_iff, eq_iff]; omega
  le_total p q := by simp only [le_iff]; omega
  lt_iff_le_not_ge p q := by simp only [le_iff, lt_iff]; omega
  toDecidableLE := inferInstance
  toDecidableEq := inferInstance
  toDecidableLT := inferInstance
  compare_eq_compareOfLessAndEq p q := by
    simp only [compare, Position.compare, compareOfLessAndEq, lt_iff, eq_iff]
    rcases Nat.lt_trichotomy p.line q.line with h | h | h
    · simp [h, Nat.ne_of_lt h]
    · rcases Nat.lt_trichotomy p.col q.col with h' | h' | h'
      · simp [h, h']
      · simp [h, h']
      · simp [h, Nat.not_lt_of_lt h', Nat.ne_of_gt h']
    · simp [Nat.not_lt_of_lt h, Nat.ne_of_gt h]

end EditorBridge.Position
