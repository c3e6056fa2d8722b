import EditorBridge.Proofs.Text.Utf8
import EditorBridge.Server.Frame
import Mathlib.Data.List.Infix

/-!
# Reading complete lines

A piece that says something is a complete line: it is short enough, ends with a line feed and is a
text (`ofPiece_eq_ok_iff`). If a stream has no line feed before its end, then nothing is left of it
once such a piece has been read (`piece_eq_of_ofPiece`).
-/

namespace EditorBridge.Frame

open Text

/-- What was written is a complete line: it has a line feed, which is at its end. -/
def IsCompleteLine (bytes : List UInt8) : Prop :=
  bytes.getLast? = some lineFeed ∧ lineFeed ∉ bytes.dropLast

theorem piece_append_afterPiece (stream : List UInt8) :
    piece stream ++ afterPiece stream = stream :=
  List.take_append_drop _ _

@[simp] theorem afterPiece_nil : afterPiece [] = [] := List.drop_nil

/-- **A piece says a value** exactly if it is a complete line that is not too long, and the text on
it is read as the value once the white space at its end is gone. -/
theorem ofPiece_eq_ok_iff {bytes : List UInt8} {v : Json} :
    ofPiece bytes = .ok v ↔ bytes.length ≤ maxLineBytes ∧ bytes.getLast? = some lineFeed ∧
      ∃ text, bytes = encodeUtf8 text ∧ Json.ofChars? (trimRight text.toList) = some v := by
  constructor
  · intro h
    unfold ofPiece at h
    split at h
    · cases h
    · rename_i text htext
      split_ifs at h with hlong hend
      split at h
      · cases h
      · rename_i w hvalue
        obtain rfl := Except.ok.inj h
        exact ⟨Nat.not_lt.mp hlong, not_not.mp hend, text, decodeUtf8?_eq_some_iff.mp htext, hvalue⟩
  · rintro ⟨hshort, hcomplete, text, rfl, hvalue⟩
    unfold ofPiece
    rw [decodeUtf8?_encodeUtf8]
    simp only
    rw [if_neg (Nat.not_lt.mpr hshort), if_neg (not_not.mpr hcomplete), hvalue]

theorem getLast?_of_ofPiece {bytes : List UInt8} {v : Json} (h : ofPiece bytes = .ok v) :
    bytes.getLast? = some lineFeed :=
  (ofPiece_eq_ok_iff.mp h).2.1

/-- A line feed that ends a piece of a stream ends the stream, if it has none before its end. -/
theorem afterPiece_eq_nil {stream : List UInt8} (h : (piece stream).getLast? = some lineFeed)
    (hone : lineFeed ∉ stream.dropLast) : afterPiece stream = [] := by
  by_contra hne
  have hmem : lineFeed ∈ piece stream := List.mem_of_getLast? h
  apply hone
  rw [← piece_append_afterPiece stream, List.dropLast_append_of_ne_nil hne]
  exact List.mem_append_left _ hmem

theorem piece_eq_of_ofPiece {stream : List UInt8} {v : Json} (h : ofPiece (piece stream) = .ok v)
    (hone : lineFeed ∉ stream.dropLast) : piece stream = stream ∧ afterPiece stream = [] := by
  have hnil := afterPiece_eq_nil (getLast?_of_ofPiece h) hone
  have happend := piece_append_afterPiece stream
  rw [hnil, List.append_nil] at happend
  exact ⟨happend, hnil⟩

/-- How the answer to a command reads: the stream has ended, or its next piece says nothing, or
the piece says a value. -/
theorem readOutcome_cases (stream : List UInt8) :
    (readOutcome stream).2 = afterPiece stream ∧
      ((readOutcome stream).1 = .error .closed ∨
        (∃ cause, (readOutcome stream).1 = .error (.transport cause)) ∨
        ∃ v, ofPiece (piece stream) = .ok v ∧
          (readOutcome stream).1 = (Outcome.ofFrame v).mapError .protocol) := by
  cases stream with
  | nil => exact ⟨afterPiece_nil.symm, Or.inl rfl⟩
  | cons byte stream =>
    refine ⟨rfl, Or.inr ?_⟩
    simp only [readOutcome, read]
    cases h : ofPiece (piece (byte :: stream)) with
    | error cause => exact Or.inl ⟨cause, rfl⟩
    | ok v => exact Or.inr ⟨v, rfl, rfl⟩

theorem eq_ok_of_mapError {ε ε' α : Type} {f : ε → ε'} {r : Except ε α} {a : α}
    (h : r.mapError f = .ok a) : r = .ok a := by
  cases r with
  | error cause => cases h
  | ok b => exact congrArg Except.ok (Except.ok.inj h)

end EditorBridge.Frame
