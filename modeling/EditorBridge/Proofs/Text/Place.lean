import EditorBridge.Text.Lines
import EditorBridge.Proofs.Position.Order

/-!
# Places in a text

A text ends at a place: one line further down for every line feed in it, and as many columns to
the right as there are characters after the last one. `place` is that place, and `upTo p` is the
part of a text before the place `p`.

Places grow with the text (`place_lt_append`), so that two beginnings of one text are compared by
the places where they end (`prefix_of_place_le`), and the part before a place is the one
beginning that ends there (`upTo_eq_of_place`).
-/

namespace EditorBridge.Text

/-- The place after one more character. -/
def advance (p : Position) (c : Char) : Position :=
  if c = '\n' then ⟨p.line + 1, 0⟩ else ⟨p.line, p.col + 1⟩

/-- The place where a text that begins at a place ends. -/
def placeFrom (p : Position) (cs : List Char) : Position := cs.foldl advance p

/-- The place where a text ends. -/
def place (cs : List Char) : Position := placeFrom ⟨1, 0⟩ cs

/-- The longest beginning, of a text that begins at `q`, that ends not after `p`. -/
def upToFrom (q p : Position) : List Char → List Char
  | [] => []
  | c :: cs => if advance q c ≤ p then c :: upToFrom (advance q c) p cs else []

/-- The part of a text before a place. -/
def upTo (p : Position) (cs : List Char) : List Char := upToFrom ⟨1, 0⟩ p cs

/-! ## Places grow -/

@[simp] theorem placeFrom_nil (p : Position) : placeFrom p [] = p := rfl

@[simp] theorem placeFrom_cons (p : Position) (c : Char) (cs : List Char) :
    placeFrom p (c :: cs) = placeFrom (advance p c) cs := rfl

theorem placeFrom_append (p : Position) (cs ds : List Char) :
    placeFrom p (cs ++ ds) = placeFrom (placeFrom p cs) ds := List.foldl_append

@[simp] theorem place_nil : place [] = ⟨1, 0⟩ := rfl

theorem place_append (cs ds : List Char) : place (cs ++ ds) = placeFrom (place cs) ds :=
  placeFrom_append _ cs ds

theorem lt_advance (p : Position) (c : Char) : p < advance p c := by
  unfold advance
  split <;> simp [Position.lt_iff]

theorem le_placeFrom (p : Position) (cs : List Char) : p ≤ placeFrom p cs := by
  induction cs generalizing p with
  | nil => exact le_refl p
  | cons c cs ih => exact le_trans (le_of_lt (lt_advance p c)) (ih _)

theorem lt_placeFrom {cs : List Char} (h : cs ≠ []) (p : Position) : p < placeFrom p cs := by
  cases cs with
  | nil => exact absurd rfl h
  | cons c cs => exact lt_of_lt_of_le (lt_advance p c) (le_placeFrom _ cs)

theorem place_lt_append (cs : List Char) {ds : List Char} (h : ds ≠ []) :
    place cs < place (cs ++ ds) := by
  rw [place_append]
  exact lt_placeFrom h _

theorem one_le_line_place (cs : List Char) : 1 ≤ (place cs).line := by
  have h : (⟨1, 0⟩ : Position) ≤ place cs := le_placeFrom _ cs
  rw [Position.le_iff] at h
  simp only at h
  omega

/-- **Beginnings of one text are compared by the places where they end.** -/
theorem prefix_of_place_le {as bs cs : List Char} (ha : as <+: cs) (hb : bs <+: cs)
    (h : place as ≤ place bs) : as <+: bs := by
  rcases List.prefix_or_prefix_of_prefix ha hb with hab | ⟨ds, rfl⟩
  · exact hab
  · by_cases hd : ds = []
    · simp [hd]
    · exact absurd h (not_le_of_gt (place_lt_append bs hd))

/-! ## The part before a place -/

theorem upToFrom_placeFrom (q : Position) (as bs : List Char) :
    upToFrom q (placeFrom q as) (as ++ bs) = as := by
  induction as generalizing q with
  | nil =>
    cases bs with
    | nil => rfl
    | cons b bs =>
      have h : ¬ advance q b ≤ q := not_le_of_gt (lt_advance q b)
      simp [upToFrom, h]
  | cons a as ih =>
    have h : advance q a ≤ placeFrom (advance q a) as := le_placeFrom _ as
    simp [upToFrom, h, ih]

theorem upToFrom_eq_nil {q p : Position} (h : p ≤ q) (cs : List Char) : upToFrom q p cs = [] := by
  cases cs with
  | nil => rfl
  | cons c cs => exact if_neg (not_le_of_gt (lt_of_le_of_lt h (lt_advance q c)))

theorem upToFrom_append (q p : Position) (as bs : List Char) :
    upToFrom q p (as ++ bs) = upToFrom q p as ++ upToFrom (placeFrom q as) p bs := by
  induction as generalizing q with
  | nil => rfl
  | cons a as ih =>
    by_cases h : advance q a ≤ p
    · simp [upToFrom, h, ih]
    · have hle : p ≤ placeFrom (advance q a) as :=
        le_trans (le_of_lt (not_le.mp h)) (le_placeFrom _ as)
      simp [upToFrom, h, upToFrom_eq_nil hle]

/-- **The part before a place goes on** where the first of two texts ends, if it goes on at all. -/
theorem upTo_append (p : Position) (as bs : List Char) :
    upTo p (as ++ bs) = upTo p as ++ upToFrom (place as) p bs :=
  upToFrom_append _ p as bs

/-- **The part before a place is the beginning that ends there.** -/
theorem upTo_eq_of_place {p : Position} {as cs : List Char} (ha : as <+: cs)
    (h : place as = p) : upTo p cs = as := by
  obtain ⟨bs, rfl⟩ := ha
  rw [← h]
  exact upToFrom_placeFrom _ as bs

end EditorBridge.Text
