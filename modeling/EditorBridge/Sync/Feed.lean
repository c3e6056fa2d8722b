import EditorBridge.Server.Transport

/-!
# Feeding lines to the server

The first chunk is told as a `struct`. As long as the server is not satisfied, the lines that
follow are told as continuations, twenty at a time, until there are none left. That the lines
run out before the server is satisfied is no error.
-/

namespace EditorBridge

/-- What a feed did. -/
structure FeedReport where
  /-- The last line, counted from one, that the server was given. -/
  endLine : Nat
  rounds : Nat
  /-- How many lines, or rests of lines, the server was told. -/
  linesSent : Nat
  satisfied : Bool
deriving DecidableEq, Inhabited

namespace Feed

/-- How many lines continue a chunk at a time. -/
def window : Nat := 20

/-- The lines in groups of a window each; the last group may be smaller. -/
def windows {α : Type} : List α → List (List α)
  | [] => []
  | line :: lines => (line :: lines).take window :: windows ((line :: lines).drop window)
termination_by lines => lines.length
decreasing_by simp only [window, List.length_drop, List.length_cons]; omega

variable {σ : Type} [Transport σ]

def tell (kind : TellKind) (chunk : List String) : Exchange σ Bool :=
  request (Command.tell kind chunk) fun answer => some answer.isTruthy

/-- Tells a chunk that ends at line `endLine`, and one window after the other until the server
is satisfied. -/
def feedFrom (kind : TellKind) (chunk : List String) (endLine rounds sent : Nat)
    (rest : List (List String)) : Exchange σ FeedReport := do
  let satisfied ← tell kind chunk
  let report : FeedReport := ⟨endLine, rounds + 1, sent + chunk.length, satisfied⟩
  if satisfied then pure report
  else
    match rest with
    | [] => pure report
    | next :: rest =>
      feedFrom .ending next (endLine + next.length) (rounds + 1) (sent + chunk.length) rest

/-- Tells a first chunk that ends at line `endLine` of the buffer, and what follows it as far as
the server asks for it. -/
def feed (lines : List String) (chunk : List String) (endLine : Nat) : Exchange σ FeedReport :=
  let endLine := min endLine lines.length
  feedFrom .struct chunk endLine 0 0 (windows (lines.drop endLine))

end Feed

end EditorBridge
