import EditorBridge.Config.Expand
import Mathlib.Data.List.Infix

/-!
# Variables are put in once

A text is made of parts: plain text, references to variables, openings that are closed at once, and
perhaps, at its end, an opening that is never closed. `Decomposes text parts` says that these parts
make up the text from left to right. Every text is made up in exactly one way
(`exists_decomposes`, `Decomposes.unique`), and it is cut into pieces along its parts
(`Decomposes.pieces_eq`), so that the expansion writes each part by itself.

The main statement is `expand_one_pass`. What is put in for a reference is never looked at again:
the expansion goes on with what stands after the reference.
-/

namespace EditorBridge.Config

/-- A part of a text with references. -/
inductive Part where
  | plain (text : List Char)
  | reference (name : List Char)
  | nameless
  /-- An opening that nothing closes, and what follows it. -/
  | unclosed (tail : List Char)
deriving DecidableEq

namespace Part

/-- A part as it stands in the text. -/
def source : Part → List Char
  | plain text => text
  | reference name => opening ++ (name ++ ['\x7d'])
  | nameless => opening ++ ['\x7d']
  | unclosed tail => opening ++ tail

/-- What is written for a part: only a reference becomes something else, the value of its variable
or nothing. -/
def value (env : Environment) : Part → List Char
  | reference name => ((env (String.ofList name)).getD "").toList
  | part => part.source

@[simp] theorem value_plain (env : Environment) (text : List Char) :
    (plain text).value env = text := rfl

@[simp] theorem value_reference (env : Environment) (name : List Char) :
    (reference name).value env = ((env (String.ofList name)).getD "").toList := rfl

end Part

/-- The text that some parts make up. -/
def sourceOf (parts : List Part) : List Char := parts.flatMap Part.source

@[simp] theorem sourceOf_nil : sourceOf [] = [] := rfl

@[simp] theorem sourceOf_cons (part : Part) (parts : List Part) :
    sourceOf (part :: parts) = part.source ++ sourceOf parts := List.flatMap_cons

/-- The parts make up the text from left to right. Plain text holds no opening, and goes as far as
it can; a reference has a name and ends where it is first closed. -/
inductive Decomposes : List Char → List Part → Prop
  | nil : Decomposes [] []
  | plain {text rest : List Char} {parts : List Part} :
      text ≠ [] → ¬ opening <:+: text → (∀ text', parts.head? ≠ some (.plain text')) →
      Decomposes rest parts → Decomposes (text ++ rest) (.plain text :: parts)
  | reference {name rest : List Char} {parts : List Part} :
      name ≠ [] → '\x7d' ∉ name → Decomposes rest parts →
      Decomposes (opening ++ (name ++ '\x7d' :: rest)) (.reference name :: parts)
  | nameless {rest : List Char} {parts : List Part} :
      Decomposes rest parts → Decomposes (opening ++ '\x7d' :: rest) (.nameless :: parts)
  | unclosed {tail : List Char} :
      '\x7d' ∉ tail → Decomposes (opening ++ tail) [.unclosed tail]

namespace Decomposes

variable {text : List Char} {parts : List Part}

theorem sourceOf_eq (h : Decomposes text parts) : sourceOf parts = text := by
  induction h with
  | nil => rfl
  | plain _ _ _ _ ih => simp [Part.source, ih]
  | reference _ _ _ ih => simp [Part.source, ih]
  | nameless _ ih => simp [Part.source, ih]
  | unclosed => simp [Part.source]

/-- What does not begin with plain text begins with an opening, or there is nothing. -/
theorem opens (h : Decomposes text parts) (hparts : ∀ text', parts.head? ≠ some (.plain text')) :
    text = [] ∨ opening <+: text := by
  cases h with
  | nil => exact Or.inl rfl
  | plain => exact absurd rfl (hparts _)
  | reference => exact Or.inr (List.prefix_append _ _)
  | nameless => exact Or.inr (List.prefix_append _ _)
  | unclosed => exact Or.inr (List.prefix_append _ _)

theorem source (h : Decomposes text parts) : Decomposes (sourceOf parts) parts :=
  h.sourceOf_eq.symm ▸ h

/-- The first parts make up what stands before the others, and the others what follows. -/
theorem of_append {front back : List Part} (h : Decomposes text (front ++ back)) :
    Decomposes (sourceOf front) front ∧ Decomposes (sourceOf back) back := by
  generalize hparts : front ++ back = parts at h
  induction h generalizing front with
  | nil =>
    obtain ⟨rfl, rfl⟩ := List.append_eq_nil_iff.mp hparts
    exact ⟨.nil, .nil⟩
  | @plain text rest parts hne hplain hnext hrest ih =>
    rcases List.append_eq_cons_iff.mp hparts with ⟨rfl, rfl⟩ | ⟨front, rfl, rfl⟩
    · exact ⟨.nil, (Decomposes.plain hne hplain hnext hrest).source⟩
    · obtain ⟨hfront, hback⟩ := ih rfl
      refine ⟨.plain hne hplain (fun text' hhead => hnext text' ?_) hfront, hback⟩
      rw [List.head?_append, hhead]
      rfl
  | reference hne hname hrest ih =>
    rcases List.append_eq_cons_iff.mp hparts with ⟨rfl, rfl⟩ | ⟨front, rfl, rfl⟩
    · exact ⟨.nil, (Decomposes.reference hne hname hrest).source⟩
    · obtain ⟨hfront, hback⟩ := ih rfl
      exact ⟨(Decomposes.reference hne hname hfront).source, hback⟩
  | nameless hrest ih =>
    rcases List.append_eq_cons_iff.mp hparts with ⟨rfl, rfl⟩ | ⟨front, rfl, rfl⟩
    · exact ⟨.nil, (Decomposes.nameless hrest).source⟩
    · obtain ⟨hfront, hback⟩ := ih rfl
      exact ⟨(Decomposes.nameless hfront).source, hback⟩
  | unclosed htail =>
    rcases List.append_eq_cons_iff.mp hparts with ⟨rfl, rfl⟩ | ⟨front, rfl, hnil⟩
    · exact ⟨.nil, (Decomposes.unclosed htail).source⟩
    · obtain ⟨rfl, rfl⟩ := List.append_eq_nil_iff.mp hnil.symm
      exact ⟨(Decomposes.unclosed htail).source, .nil⟩

end Decomposes

/-! ## Every text has parts -/

/-- Where a text has an opening, it has a first one. -/
theorem exists_first_opening {text : List Char} (h : opening <:+: text) :
    ∃ front after, text = front ++ (opening ++ after) ∧ ¬ opening <:+: front := by
  induction text with
  | nil => exact absurd (List.infix_nil.mp h) (by decide)
  | cons c cs ih =>
    by_cases hhere : opening <+: c :: cs
    · obtain ⟨after, hafter⟩ := hhere
      exact ⟨[], after, hafter.symm, by decide⟩
    · rcases List.infix_cons_iff.mp h with hstart | hinfix
      · exact absurd hstart hhere
      · obtain ⟨front, after, rfl, hfront⟩ := ih hinfix
        refine ⟨c :: front, after, rfl, fun hmem => ?_⟩
        rcases List.infix_cons_iff.mp hmem with hstart | hinfix'
        · exact hhere (hstart.trans (List.prefix_append (c :: front) _))
        · exact hfront hinfix'

/-- What stands before an opening is plain text, or nothing. -/
theorem Decomposes.after_plain {front text : List Char} {parts : List Part}
    (hfront : ¬ opening <:+: front) (h : Decomposes text parts)
    (hparts : ∀ text', parts.head? ≠ some (.plain text')) :
    ∃ parts', Decomposes (front ++ text) parts' := by
  by_cases hnil : front = []
  · exact ⟨parts, by rwa [hnil, List.nil_append]⟩
  · exact ⟨_, .plain hnil hfront hparts h⟩

theorem exists_decomposes (text : List Char) : ∃ parts, Decomposes text parts := by
  induction hn : text.length using Nat.strongRecOn generalizing text with
  | ind n ih =>
    by_cases hopening : opening <:+: text
    · obtain ⟨front, after, rfl, hfront⟩ := exists_first_opening hopening
      by_cases hclosed : '\x7d' ∈ after
      · obtain ⟨name, rest, rfl, hname⟩ := List.eq_append_cons_of_mem hclosed
        obtain ⟨parts, hrest⟩ := ih rest.length (by simp [← hn]; omega) rest rfl
        by_cases hnil : name = []
        · subst hnil
          exact Decomposes.after_plain hfront (.nameless hrest) (by simp)
        · exact Decomposes.after_plain hfront (.reference hnil hname hrest) (by simp)
      · exact Decomposes.after_plain hfront (.unclosed hclosed) (by simp)
    · obtain ⟨parts, h⟩ := Decomposes.after_plain hopening .nil (by simp)
      exact ⟨parts, by rwa [List.append_nil] at h⟩

/-! ## A text is cut along its parts -/

/-- The pieces that a part is cut into: plain text is cut into its characters. -/
def Part.pieces : Part → List Piece
  | plain text => text.map fun c => .literal [c]
  | reference name => [.reference name]
  | nameless => [.literal nameless.source]
  | unclosed tail => [.literal (unclosed tail).source]

theorem Part.flatMap_value_pieces (env : Environment) (part : Part) :
    part.pieces.flatMap (Piece.value env) = part.value env := by
  cases part with
  | plain text => simp [pieces, value, source, List.flatMap_map, Piece.value]
  | reference name => exact List.append_nil _
  | nameless => rfl
  | unclosed tail => exact List.append_nil _

theorem pieces_cons {c : Char} {cs : List Char} (h : ¬ opening <+: c :: cs) :
    pieces (c :: cs) = .literal [c] :: pieces cs := by
  rw [pieces, scan, pieces]
  rintro rest rfl rfl
  exact h (List.prefix_append opening rest)

theorem pieces_plain {text rest : List Char} (h : ¬ opening <:+: text)
    (hrest : rest = [] ∨ opening <+: rest) :
    pieces (text ++ rest) = (Part.plain text).pieces ++ pieces rest := by
  induction text with
  | nil => rfl
  | cons c cs ih =>
    have hcs : ¬ opening <:+: cs := fun hmem => h (List.infix_cons hmem)
    have hhere : ¬ opening <+: c :: (cs ++ rest) := by
      rintro ⟨after, hafter⟩
      obtain ⟨rfl, htail⟩ := List.cons.inj hafter
      cases cs with
      | cons d cs =>
        obtain ⟨rfl, -⟩ := List.cons.inj htail
        exact h ⟨[], cs, rfl⟩
      | nil =>
        -- no opening begins at the last character, since what follows it is an opening itself
        rcases hrest with rfl | ⟨after', rfl⟩
        · cases htail
        · exact absurd (List.cons.inj htail).1 (by decide)
    rw [List.cons_append, pieces_cons hhere, ih hcs]
    rfl

theorem scan_closed {name : List Char} (h : '\x7d' ∉ name) (before rest : List Char) :
    scan (some before) (name ++ '\x7d' :: rest) =
      Piece.ofName (before.reverse ++ name) :: pieces rest := by
  induction name generalizing before with
  | nil =>
    rw [List.nil_append, scan, if_pos rfl, List.append_nil]
    rfl
  | cons c cs ih =>
    obtain ⟨hc, hcs⟩ := not_or.mp (List.mem_cons.not.mp h)
    rw [List.cons_append, scan, if_neg (Ne.symm hc), ih hcs]
    simp

theorem scan_unclosed {tail : List Char} (h : '\x7d' ∉ tail) (before : List Char) :
    scan (some before) tail = [.literal (opening ++ (before.reverse ++ tail))] := by
  induction tail generalizing before with
  | nil => rw [scan, List.append_nil]
  | cons c cs ih =>
    obtain ⟨hc, hcs⟩ := not_or.mp (List.mem_cons.not.mp h)
    rw [scan, if_neg (Ne.symm hc), ih hcs]
    simp

theorem Decomposes.pieces_eq {text : List Char} {parts : List Part} (h : Decomposes text parts) :
    pieces text = parts.flatMap Part.pieces := by
  induction h with
  | nil => rfl
  | plain _ hplain hnext hrest ih =>
    rw [pieces_plain hplain (hrest.opens hnext), ih, List.flatMap_cons]
  | @reference name rest parts hne hname _ ih =>
    have hofName : Piece.ofName name = .reference name := by
      cases name with
      | nil => exact absurd rfl hne
      | cons c cs => rfl
    rw [List.flatMap_cons, ← ih]
    refine (scan_closed hname [] rest).trans ?_
    rw [List.reverse_nil, List.nil_append, hofName]
    rfl
  | @nameless rest parts _ ih =>
    rw [List.flatMap_cons, ← ih]
    exact scan_closed List.not_mem_nil [] rest
  | unclosed htail => exact scan_unclosed htail []

/-- **The expansion writes each part by itself.** -/
theorem Decomposes.expand_eq {text : List Char} {parts : List Part} (h : Decomposes text parts)
    (env : Environment) :
    expand env (String.ofList text) = String.ofList (parts.flatMap (Part.value env)) := by
  rw [expand, String.toList_ofList, h.pieces_eq, List.flatMap_assoc]
  simp only [Part.flatMap_value_pieces]

/-! ## The parts of a text are unique -/

/-- Puts a character before some parts, the first of which may be plain text. -/
def addPlain (c : Char) : List Part → List Part
  | .plain text :: parts => .plain (c :: text) :: parts
  | parts => .plain [c] :: parts

/-- The parts that some pieces were cut from. -/
def assemble : List Piece → List Part
  | [] => []
  | .reference name :: rest => .reference name :: assemble rest
  | .literal [c] :: rest => addPlain c (assemble rest)
  | .literal text :: rest =>
    (if '\x7d' ∈ text then .nameless else .unclosed (text.drop 2)) :: assemble rest

theorem addPlain_of_head? {parts : List Part} (h : ∀ text', parts.head? ≠ some (.plain text'))
    (c : Char) : addPlain c parts = .plain [c] :: parts := by
  unfold addPlain
  split
  · exact absurd rfl (h _)
  · rfl

theorem assemble_plain {text : List Char} {ps : List Piece} (hne : text ≠ [])
    (hps : ∀ text', (assemble ps).head? ≠ some (.plain text')) :
    assemble ((Part.plain text).pieces ++ ps) = .plain text :: assemble ps := by
  induction text with
  | nil => exact absurd rfl hne
  | cons c cs ih =>
    change addPlain c (assemble ((Part.plain cs).pieces ++ ps)) = _
    by_cases hcs : cs = []
    · subst hcs
      exact addPlain_of_head? hps c
    · rw [ih hcs, addPlain]

theorem Decomposes.assemble_eq {text : List Char} {parts : List Part}
    (h : Decomposes text parts) : assemble (parts.flatMap Part.pieces) = parts := by
  induction h with
  | nil => rfl
  | plain hne _ hnext _ ih =>
    rw [List.flatMap_cons, assemble_plain hne (ih.symm ▸ hnext), ih]
  | reference _ _ _ ih => exact congrArg (List.cons _) ih
  | nameless _ ih => exact congrArg (List.cons _) ih
  | @unclosed tail htail =>
    have hopened : '\x7d' ∉ opening ++ tail := by simpa [opening] using htail
    change [if '\x7d' ∈ opening ++ tail then Part.nameless else .unclosed tail] = _
    rw [if_neg hopened]

theorem Decomposes.unique {text : List Char} {parts parts' : List Part}
    (h : Decomposes text parts) (h' : Decomposes text parts') : parts' = parts := by
  rw [← h.assemble_eq, ← h.pieces_eq, h'.pieces_eq, h'.assemble_eq]

/-- **Variables are put in in one pass** from left to right. A text is made up of parts in just one
way, and each of them is written by itself. So the value of a variable is put in as it is, and the
expansion goes on after the reference; only the variables count that the text refers to; and a
text without an opening stays as it is. -/
theorem expand_one_pass (text : String) :
    ∃ parts, Decomposes text.toList parts ∧
      (∀ parts', Decomposes text.toList parts' → parts' = parts) ∧
      (∀ env, expand env text = String.ofList (parts.flatMap (Part.value env))) ∧
      (∀ env front name back, parts = front ++ .reference name :: back →
        expand env text = expand env (String.ofList (sourceOf front)) ++
          (env (String.ofList name)).getD "" ++ expand env (String.ofList (sourceOf back))) ∧
      (∀ env env' : Environment,
        (∀ name, .reference name ∈ parts → env (String.ofList name) = env' (String.ofList name)) →
        expand env text = expand env' text) ∧
      (¬ opening <:+: text.toList → ∀ env, expand env text = text) := by
  obtain ⟨parts, h⟩ := exists_decomposes text.toList
  have hexpand : ∀ env, expand env text = String.ofList (parts.flatMap (Part.value env)) := by
    intro env
    rw [← h.expand_eq env, String.ofList_toList]
  refine ⟨parts, h, fun parts' h' => h.unique h', hexpand, ?_, ?_, ?_⟩
  · rintro env front name back rfl
    have hfront := h.of_append.1
    rw [List.append_cons] at h
    have hback := h.of_append.2
    rw [hexpand, hfront.expand_eq, hback.expand_eq, List.flatMap_append, List.flatMap_cons,
      Part.value_reference, String.ofList_append, String.ofList_append, String.ofList_toList,
      String.append_assoc]
  · intro env env' henv
    rw [hexpand env, hexpand env']
    refine congrArg String.ofList (List.flatMap_congr fun part hpart => ?_)
    cases part with
    | reference name => rw [Part.value_reference, Part.value_reference, henv name hpart]
    | _ => rfl
  · intro hplain env
    have hpieces := pieces_plain hplain (Or.inl rfl)
    rw [List.append_nil] at hpieces
    have hnil : (pieces []).flatMap (Piece.value env) = [] := rfl
    rw [expand, hpieces, List.flatMap_append, Part.flatMap_value_pieces, Part.value_plain, hnil,
      List.append_nil, String.ofList_toList]

end EditorBridge.Config
