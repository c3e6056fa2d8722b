import EditorBridge.Session.Basic
import Mathlib.Data.List.Induction

/-!
# Walking is counting with ends

The cursor of a navigator starts one place before its scopes. A walk of steps outward and inward
counts up and down from there, and stops at both ends instead of counting on: one place before the
scopes and one place after them (`place`). Without scopes it never leaves its start.

`foldl_move` says that this is where a walk leaves the cursor, `run_walk` which scope each step of
a walk in a session shows, and `run_walk_outward` that steps outward show all scopes once, the
innermost first, and then nothing.
-/

namespace EditorBridge

inductive Step where
  | outward
  | inward
deriving DecidableEq

namespace Step

def offset : Step → Int
  | .outward => 1
  | .inward => -1

/-- Where a step leads from place `i`, among `n` scopes. -/
def lead (n : Nat) (i : Int) (step : Step) : Int :=
  if n = 0 then -1 else max (-1) (min n (i + step.offset))

/-- Where some steps lead from the start, among `n` scopes. -/
def place (n : Nat) (steps : List Step) : Int := steps.foldl (lead n) (-1)

theorem lead_mem (n : Nat) (i : Int) (step : Step) :
    -1 ≤ lead n i step ∧ lead n i step ≤ n ∧ (n = 0 → lead n i step = -1) := by
  unfold lead
  by_cases hn : n = 0
  · rw [if_pos hn]
    omega
  · rw [if_neg hn]
    omega

theorem place_concat (n : Nat) (steps : List Step) (step : Step) :
    place n (steps ++ [step]) = lead n (place n steps) step := List.foldl_append

theorem place_mem (n : Nat) (steps : List Step) :
    -1 ≤ place n steps ∧ place n steps ≤ n ∧ (n = 0 → place n steps = -1) := by
  rcases List.eq_nil_or_concat steps with rfl | ⟨before, last, rfl⟩
  · exact ⟨Int.le_refl _, by change (-1 : Int) ≤ n; omega, fun _ => rfl⟩
  · rw [List.concat_eq_append, place_concat]
    exact lead_mem n _ last

/-- Steps outward count up to the number of scopes. -/
theorem place_replicate_outward {n : Nat} (hn : 0 < n) (k : Nat) :
    place n (List.replicate k .outward) = min (k - 1 : Int) n := by
  induction k with
  | zero =>
    change (-1 : Int) = _
    omega
  | succ k ih =>
    rw [List.replicate_succ', place_concat, ih, lead, if_neg (by omega), offset]
    omega

end Step

namespace Navigator

open Step (lead place)

def move (n : Navigator) : Step → Navigator
  | .outward => n.forward
  | .inward => n.backward

theorem isEmpty_eq_true_iff {scopes : List Scope} {i : Int} :
    (⟨scopes, i⟩ : Navigator).isEmpty = true ↔ scopes.length = 0 := by
  rw [isEmpty, List.isEmpty_iff, List.length_eq_zero_iff]

theorem forward_eq {scopes : List Scope} {i : Int} (hlow : -1 ≤ i) (hhigh : i ≤ scopes.length)
    (hne : scopes.length ≠ 0) : forward ⟨scopes, i⟩ = ⟨scopes, lead scopes.length i .outward⟩ := by
  have hforward : forward ⟨scopes, i⟩ =
      if i < scopes.length then ⟨scopes, i + 1⟩ else ⟨scopes, i⟩ :=
    if_neg fun h => hne (isEmpty_eq_true_iff.mp h)
  rw [hforward, lead, if_neg hne, Step.offset]
  by_cases hlast : i < scopes.length
  · rw [if_pos hlast, show max (-1) (min (scopes.length : Int) (i + 1)) = i + 1 by omega]
  · rw [if_neg hlast, show max (-1) (min (scopes.length : Int) (i + 1)) = i by omega]

theorem backward_eq {scopes : List Scope} {i : Int} (hlow : -1 ≤ i) (hhigh : i ≤ scopes.length)
    (hne : scopes.length ≠ 0) : backward ⟨scopes, i⟩ = ⟨scopes, lead scopes.length i .inward⟩ := by
  have hbackward : backward ⟨scopes, i⟩ = if 0 ≤ i then ⟨scopes, i - 1⟩ else ⟨scopes, i⟩ :=
    if_neg fun h => hne (isEmpty_eq_true_iff.mp h)
  rw [hbackward, lead, if_neg hne, Step.offset]
  by_cases hfirst : 0 ≤ i
  · rw [if_pos hfirst, show max (-1) (min (scopes.length : Int) (i + -1)) = i - 1 by omega]
  · rw [if_neg hfirst, show max (-1) (min (scopes.length : Int) (i + -1)) = i by omega]

/-- A step keeps the scopes and counts, as long as the cursor is not beyond the ends. -/
theorem move_eq {scopes : List Scope} {i : Int} (step : Step) (hlow : -1 ≤ i)
    (hhigh : i ≤ scopes.length) (hempty : scopes.length = 0 → i = -1) :
    (⟨scopes, i⟩ : Navigator).move step = ⟨scopes, lead scopes.length i step⟩ := by
  by_cases hn : scopes.length = 0
  · have hlead : lead scopes.length i step = i := by
      rw [lead, if_pos hn, hempty hn]
    rw [hlead]
    cases step with
    | outward => exact if_pos (isEmpty_eq_true_iff.mpr hn)
    | inward => exact if_pos (isEmpty_eq_true_iff.mpr hn)
  · cases step with
    | outward => exact forward_eq hlow hhigh hn
    | inward => exact backward_eq hlow hhigh hn

/-- **The cursor counts the steps,** and stops at both ends. -/
theorem foldl_move (scopes : List Scope) (steps : List Step) :
    steps.foldl move (ofScopes scopes) = ⟨scopes, place scopes.length steps⟩ := by
  induction steps using List.reverseRecOn with
  | nil => rfl
  | append_singleton steps step ih =>
    obtain ⟨hlow, hhigh, hempty⟩ := Step.place_mem scopes.length steps
    rw [List.foldl_append, ih, Step.place_concat]
    exact move_eq step hlow hhigh hempty

/-- What is shown when the cursor is at a place: the scope there, if there is one, and the regions
of its span. -/
def shown (scopes : List Scope) (i : Int) : Option ScopeView :=
  if h : 0 ≤ i ∧ i < scopes.length then
    let scope := scopes.get ⟨i.toNat, by omega⟩
    some ⟨i.toNat, scope, scope.span.regions⟩
  else none

theorem view?_mk (scopes : List Scope) (i : Int) :
    (⟨scopes, i⟩ : Navigator).view? = shown scopes i := by
  unfold view? shown
  by_cases hi : 0 ≤ i
  · by_cases hlt : i < scopes.length
    · have hget : scopes[i.toNat]? = some (scopes.get ⟨i.toNat, by omega⟩) :=
        List.getElem?_eq_getElem (by omega)
      rw [if_neg (by simp only; omega), dif_pos ⟨hi, hlt⟩]
      simp only [hget, Option.map_some]
      rfl
    · have hget : scopes[i.toNat]? = none := List.getElem?_eq_none (by omega)
      rw [if_neg (by simp only; omega), dif_neg (by omega)]
      simp only [hget, Option.map_none]
  · rw [if_pos (by simp only; omega), dif_neg (by omega)]

theorem shown_ofNat {scopes : List Scope} {i : Nat} (h : i < scopes.length) :
    shown scopes i = some (scopes[i].view i) := by
  rw [shown, dif_pos (by omega)]
  rfl

theorem shown_length (scopes : List Scope) : shown scopes scopes.length = none :=
  dif_neg (by omega)

/-- All views of some scopes, the innermost first. -/
def views (scopes : List Scope) : List ScopeView := scopes.zipIdx.map fun (scope, i) => scope.view i

@[simp] theorem length_views (scopes : List Scope) : (views scopes).length = scopes.length := by
  rw [views, List.length_map, List.length_zipIdx]

theorem getElem?_views (scopes : List Scope) (i : Nat) : (views scopes)[i]? = shown scopes i := by
  by_cases hlt : i < scopes.length
  · rw [shown_ofNat hlt]
    simp [views, hlt]
  · rw [List.getElem?_eq_none (by simp only [length_views]; omega), shown, dif_neg (by omega)]

/-- All places of some scopes show something. -/
theorem map_shown (scopes : List Scope) :
    (List.range scopes.length).map (fun i => shown scopes (i : Nat)) =
      (views scopes).map some := by
  refine List.ext_getElem? fun i => ?_
  rw [List.getElem?_map, List.getElem?_map, getElem?_views]
  by_cases hlt : i < scopes.length
  · simp only [List.getElem?_range hlt, Option.map_some, shown_ofNat hlt]
  · rw [List.getElem?_eq_none (by simpa using hlt), shown, dif_neg (by omega)]
    rfl

end Navigator

namespace Session

variable {σ : Type}

/-- From a scope, the next step outward shows the next one, if there is one. -/
theorem run_nextScope {scopes : List Scope} {i : Nat} (hi : i < scopes.length) (s : Session σ) :
    nextScope.run { s with navigator := ⟨scopes, i⟩ } =
      (.ok (Navigator.shown scopes (i + 1 : Nat)),
        { s with navigator := ⟨scopes, (i + 1 : Nat)⟩ }) := by
  have hlead : Step.lead scopes.length i .outward = (i + 1 : Nat) := by
    rw [Step.lead, if_neg (by omega), Step.offset]
    omega
  have hforward : Navigator.forward ⟨scopes, i⟩ = ⟨scopes, (i + 1 : Nat)⟩ := by
    rw [Navigator.forward_eq (by omega) (by omega) (by omega), hlead]
  rw [← Navigator.view?_mk, ← hforward]
  rfl

/-- One step through the scopes of a session. -/
def step : Step → Exchange (Session σ) (Option ScopeView)
  | .outward => nextScope
  | .inward => previousScope

/-- Some steps through the scopes of a session, and what each of them shows. -/
def walk : List Step → Exchange (Session σ) (List (Option ScopeView))
  | [] => pure []
  | first :: steps => do
    let view ← step first
    let views ← walk steps
    pure (view :: views)

theorem run_step (first : Step) (s : Session σ) :
    (step first).run s =
      (.ok (s.navigator.move first).view?, { s with navigator := s.navigator.move first }) := by
  cases first <;> rfl

theorem run_walk_eq (steps : List Step) (s : Session σ) :
    (walk steps).run s =
      (.ok ((List.range steps.length).map fun j =>
          ((steps.take (j + 1)).foldl Navigator.move s.navigator).view?),
        { s with navigator := steps.foldl Navigator.move s.navigator }) := by
  induction steps generalizing s with
  | nil => rfl
  | cons first steps ih =>
    rw [walk, Exchange.run_bind, run_step]
    simp only
    rw [Exchange.run_bind, ih]
    simp only [List.length_cons, List.range_succ_eq_map, List.map_cons, List.map_map,
      Exchange.run_pure]
    rfl

/-- **A walk through scopes** leaves the cursor where the steps lead, and each of its steps shows
the scope where the steps so far lead. -/
theorem run_walk (scopes : List Scope) (steps : List Step) (s : Session σ) :
    (walk steps).run { s with navigator := .ofScopes scopes } =
      (.ok ((List.range steps.length).map fun j =>
          Navigator.shown scopes (Step.place scopes.length (steps.take (j + 1)))),
        { s with navigator := ⟨scopes, Step.place scopes.length steps⟩ }) := by
  rw [run_walk_eq]
  simp only [Navigator.foldl_move, Navigator.view?_mk]

/-- **Steps outward show every scope once,** the innermost first, and then nothing. -/
theorem run_walk_outward (scopes : List Scope) (s : Session σ) :
    ((walk (List.replicate (scopes.length + 1) .outward)).run
      { s with navigator := .ofScopes scopes }).1 =
        .ok ((Navigator.views scopes).map some ++ [none]) := by
  have hplace : ∀ i ∈ List.range (scopes.length + 1), Navigator.shown scopes
      (Step.place scopes.length ((List.replicate (scopes.length + 1) .outward).take (i + 1))) =
        Navigator.shown scopes (i : Nat) := by
    intro i hi
    have hle : i + 1 ≤ scopes.length + 1 := List.mem_range.mp hi
    rw [List.take_replicate, Nat.min_eq_left hle]
    by_cases hn : scopes.length = 0
    · obtain rfl := List.length_eq_zero_iff.mp hn
      obtain rfl : i = 0 := by simpa using hle
      rfl
    · rw [Step.place_replicate_outward (by omega)]
      congr 1
      omega
  rw [run_walk, List.length_replicate]
  refine congrArg Except.ok ?_
  rw [List.map_congr_left hplace, List.range_succ, List.map_append, Navigator.map_shown]
  rw [List.map_singleton, Navigator.shown_length]

end Session

end EditorBridge
