/-!
# Likeness of words

Whether one word may be meant by another one. Two characters of two words match if they are equal
and not too far apart; every character matches at most once. The likeness of two words is the mean
of three shares: of the first word's characters that match, of the second word's characters that
match, and of the matches that stand in the same order in both words. Words are alike if their
likeness is above seven tenths.
-/

namespace EditorBridge.Text

/-- Marks the first character that is equal to a given one and not yet marked. The characters stand
at `place` and the places after it; only the places from `first` up to `last` count. -/
def markFirst (c : Char) (first last place : Nat) :
    List (Char × Bool) → Option (List (Char × Bool))
  | [] => none
  | (other, used) :: rest =>
    if first ≤ place ∧ place < last ∧ other = c ∧ used = false then some ((other, true) :: rest)
    else (markFirst c first last (place + 1) rest).map ((other, used) :: ·)

/-- The characters of the first word that match, and the second word with its matches marked. The
first word begins at `place`, and no match reaches further than `reach` places. -/
def matchWords (reach : Nat) (place : Nat) :
    List Char → List (Char × Bool) → List Char × List (Char × Bool)
  | [], b => ([], b)
  | c :: a, b =>
    match markFirst c (place - reach) (place + reach + 1) 0 b with
    | some b =>
      let (found, b) := matchWords reach (place + 1) a b
      (c :: found, b)
    | none => matchWords reach (place + 1) a b

/-- Whether two words are alike. -/
def areAlike (first second : String) : Bool :=
  let a := first.toList
  let b := second.toList
  let reach := max a.length b.length / 2 - 1
  let (found, marked) := matchWords reach 0 a (b.map (·, false))
  let others := (marked.filter (·.2)).map (·.1)
  let hits := found.length
  let ordered := hits - ((found.zip others).filter fun (c, d) => c != d).length / 2
  hits != 0 &&
    21 * a.length * b.length * hits <
      10 * (hits * hits * b.length + hits * hits * a.length + ordered * a.length * b.length)

end EditorBridge.Text
