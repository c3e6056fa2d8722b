import EditorBridge.Proofs.Scopes.Pattern
import EditorBridge.Proofs.Text.LineEnds
import EditorBridge.Proofs.Text.Squash
import EditorBridge.Session.Listing

/-!
# Lines of a listing

A listing writes each of its records with a line feed after it. So it has one line for each record
just if no record holds a line feed of its own (`hasLines_ofLines_iff`), and what a record holds is
read off its fields: numbers, spans and patterns are written without line feeds, and texts may have
been put on one line before.

`listings_by_line` is the main statement. The messages of diagnostics and the descriptions of
candidates are put on one line; names, the kinds in front of them, packages and the types of scopes
are written as the server sent them. A listing with a number that does not fit its word is not
written at all.
-/

namespace EditorBridge

namespace Text

instance : DecidablePred IsLine := fun line => inferInstanceAs (Decidable ('\n' ∉ line.toList))

/-- The text consists of so many lines, each with a line feed at its end and no other. -/
def HasLines (n : Nat) (text : String) : Prop :=
  ∃ lines : List String, lines.length = n ∧ text.toList = chars lines ∧ ∀ line ∈ lines, IsLine line

@[simp] theorem isLine_append {s t : String} : IsLine (s ++ t) ↔ IsLine s ∧ IsLine t := by
  simp [IsLine]

/-! ## Texts on one line -/

theorem isLine_toString (n : Nat) : IsLine (toString n) := by
  intro hmem
  rw [Nat.toString_eq_repr, Nat.toList_repr] at hmem
  exact absurd (Nat.isDigit_of_mem_toDigits (by decide) (by decide) hmem) (by decide)

/-- The first letter of a text is a line feed only if the text begins with one. -/
theorem isLine_firstLetter (text : String) :
    IsLine (String.ofList (text.toList.take 1)) ↔ text.toList.head? ≠ some '\n' := by
  cases h : text.toList with
  | nil => simp [IsLine]
  | cons c cs => simp [IsLine, eq_comm]

end Text

open Text

/-! ## Spans on one line -/

theorem isLine_position (p : Position) : IsLine p.render := by
  simp only [Position.render, isLine_append, isLine_toString, true_and, and_true]
  decide

theorem isLine_span (s : Span) : IsLine s.render := by
  simp only [Span.render, isLine_append, isLine_position, true_and, and_true]
  decide

theorem isLine_pattern {s : Span} {pattern : String} (h : s.pattern = .ok pattern) :
    IsLine pattern := by
  rw [IsLine, Region.toList_of_alternatives (Span.pattern_eq_ok_iff.mp h)]
  intro hmem
  obtain ⟨piece, -, hpiece⟩ := List.mem_flatMap.mp hmem
  rcases List.mem_cons.mp hpiece with h | h
  · exact absurd h (by decide)
  · exact absurd (SearchPattern.Piece.mem_chars h) (by decide)

namespace Listing

/-- The text is written, and consists of so many lines. -/
def Prints (n : Nat) (r : Except Overflow String) : Prop := ∃ text, r = .ok text ∧ HasLines n text

theorem toList_ofLines (texts : List String) : (ofLines texts).toList = chars texts :=
  toList_terminated texts

/-- **A listing has one line for each record just if no record holds a line feed.** -/
theorem hasLines_ofLines_iff {α : Type} (records : List α) (text : α → String) :
    HasLines records.length (ofLines (records.map text)) ↔ ∀ r ∈ records, IsLine (text r) := by
  constructor
  · rintro ⟨lines, hlength, htext, hlines⟩
    refine fun r hr => count_chars_iff.mp ?_ (text r) (List.mem_map_of_mem hr)
    rw [← toList_ofLines, htext, count_chars_iff.mpr hlines, hlength, List.length_map]
  · intro hrecords
    refine ⟨records.map text, List.length_map text, toList_ofLines _, fun line hline => ?_⟩
    obtain ⟨r, hr, rfl⟩ := List.mem_map.mp hline
    exact hrecords r hr

theorem hasLines_menu_iff (cs : List Completion) :
    HasLines cs.length (menu (cs.map Completion.menuItem)) ↔
      ∀ c ∈ cs, c.kind.toList.head? ≠ some '\n' ∧ IsLine c.name := by
  have htab : IsLine "\t" := by decide
  rw [menu, List.map_map, hasLines_ofLines_iff]
  simp only [Function.comp_apply, Completion.menuItem, isLine_append, isLine_firstLetter,
    isLine_squash, htab, and_true]

theorem hasLines_candidates_iff (cs : List Completion) :
    HasLines cs.length (candidates (cs.map Completion.candidate)) ↔
      ∀ c ∈ cs, IsLine c.kind ∧ IsLine c.name := by
  have hcolon : IsLine ": " := by decide
  rw [candidates, List.map_map, hasLines_ofLines_iff]
  simp only [Function.comp_apply, Completion.candidate, isLine_append, hcolon, and_true]

theorem hasLines_names_iff (items : List String) :
    HasLines items.length (names items) ↔ ∀ name ∈ items, IsLine name := by
  have h := hasLines_ofLines_iff items id
  rwa [List.map_id] at h

/-! ## Scopes -/

theorem scope_view (index : Nat) (s : Scope) :
    scope (s.view index) = s.span.pattern.map fun pattern =>
      line (s.span.render ++ "\t" ++ s.type ++ "\t" ++ pattern) := by
  simp only [scope, Scope.view, Span.pattern]
  cases s.span.regions with
  | error overflow => rfl
  | ok regions =>
    change (Region.alternatives regions >>= _) = Except.map _ (Region.alternatives regions)
    cases Region.alternatives regions <;> rfl

theorem prints_scope_iff (index : Nat) (s : Scope) :
    Prints 1 (scope (s.view index)) ↔ s.span.Fits ∧ IsLine s.type := by
  rw [scope_view]
  cases hpattern : s.span.pattern with
  | error overflow =>
    cases overflow
    have hfits : ¬ s.span.Fits := Span.pattern_eq_error_iff.mp hpattern
    exact iff_of_false (fun ⟨_, h, _⟩ => nomatch h) fun h => hfits h.1
  | ok pattern =>
    have hfits : s.span.Fits := by
      by_contra hnot
      rw [Span.pattern_eq_error_iff.mpr hnot] at hpattern
      cases hpattern
    have htab : IsLine "\t" := by decide
    have hline := hasLines_ofLines_iff [s] fun s =>
      s.span.render ++ "\t" ++ s.type ++ "\t" ++ pattern
    simp only [List.map_cons, List.map_nil, ofLines, String.join_cons, String.join_nil,
      String.append_empty, List.forall_mem_singleton, isLine_append, isLine_span,
      isLine_pattern hpattern, htab, true_and, and_true] at hline
    rw [and_iff_right hfits, ← hline]
    constructor
    · rintro ⟨text, htext, h⟩
      obtain rfl := Except.ok.inj htext
      exact h
    · exact fun h => ⟨_, rfl, h⟩

/-! ## Diagnostics -/

theorem location_eq_error_iff {d : Diagnostic} {number : Nat} :
    d.location number = .error .addition ↔ ∃ p ∈ d.start, maxWord32 ≤ p.col := by
  rw [Diagnostic.location, Diagnostic.place]
  cases d.start with
  | none => exact iff_of_false (fun h => nomatch h) fun ⟨_, h, _⟩ => nomatch h
  | some p =>
    by_cases hcol : p.col < maxWord32
    · simp only [successor_of_lt hcol]
      refine iff_of_false (fun h => nomatch h) fun ⟨p', hp', hle⟩ => ?_
      obtain rfl := Option.some.inj hp'
      exact absurd hcol (Nat.not_lt.mpr hle)
    · simp only [successor_of_le (Nat.not_lt.mp hcol)]
      exact iff_of_true rfl ⟨p, rfl, Nat.not_lt.mp hcol⟩

theorem text_of_location {d : Diagnostic} {number : Nat} {l : Location}
    (h : d.location number = .ok l) : l.text = onOneLine d.message := by
  rw [Diagnostic.location] at h
  cases hplace : d.place with
  | error overflow =>
    rw [hplace] at h
    cases h
  | ok place =>
    rw [hplace] at h
    exact congrArg Location.text (Except.ok.inj h).symm

/-- The diagnostics that are listed are all of them, or all but the warnings. -/
def isListed (ignoreWarnings : Bool) (d : Diagnostic) : Bool :=
  !(ignoreWarnings && d.category == .warning)

theorem locations_eq_error_iff {ignoreWarnings : Bool} {ds : List Diagnostic} :
    Diagnostic.locations ignoreWarnings ds = .error .addition ↔
      ∃ d ∈ ds, isListed ignoreWarnings d = true ∧ ∃ p ∈ d.start, maxWord32 ≤ p.col := by
  rw [Diagnostic.locations, Overflow.mapM_eq_error_iff]
  constructor
  · rintro ⟨⟨d, number⟩, hmem, hlocation⟩
    obtain ⟨hd, hlisted⟩ := List.mem_filter.mp (List.fst_mem_of_mem_zipIdx hmem)
    exact ⟨d, hd, hlisted, location_eq_error_iff.mp hlocation⟩
  · rintro ⟨d, hd, hlisted, hcol⟩
    obtain ⟨number, hnumber, hget⟩ := List.mem_iff_getElem.mp (List.mem_filter.mpr ⟨hd, hlisted⟩)
    refine ⟨(d, number), List.mk_mem_zipIdx_iff_getElem?.mpr ?_, location_eq_error_iff.mpr hcol⟩
    rw [← hget]
    exact List.getElem?_eq_getElem hnumber

theorem hasLines_locations {ignoreWarnings : Bool} {ds : List Diagnostic} {items : List Location}
    (h : Diagnostic.locations ignoreWarnings ds = .ok items) :
    HasLines (ds.countP (isListed ignoreWarnings)) (locations items) := by
  have hitems := Overflow.mapM_eq_ok_iff.mp h
  have hlength : items.length = ds.countP (isListed ignoreWarnings) := by
    have hcount := congrArg List.length hitems
    rw [List.length_map, List.length_map, List.length_zipIdx, ← List.countP_eq_length_filter]
      at hcount
    exact hcount.symm
  have hcolons : IsLine ":" ∧ IsLine ": " := by decide
  rw [← hlength, locations, hasLines_ofLines_iff]
  intro l hl
  have hcode : IsLine l.code := by
    unfold Location.code
    split <;> decide
  have htext : IsLine l.text := by
    have hmem : (.ok l : Except Overflow Location) ∈ items.map .ok := List.mem_map_of_mem hl
    rw [← hitems] at hmem
    obtain ⟨⟨d, number⟩, -, hlocation⟩ := List.mem_map.mp hmem
    rw [text_of_location hlocation]
    exact isLine_onOneLine d.message
  simp only [isLine_append, isLine_toString, hcolons, hcode, htext, true_and]

theorem prints_locations_iff (ignoreWarnings : Bool) (ds : List Diagnostic) :
    Prints (ds.countP (isListed ignoreWarnings))
        (locations <$> Diagnostic.locations ignoreWarnings ds) ↔
      ∀ d ∈ ds, isListed ignoreWarnings d = true → ∀ p ∈ d.start, p.col < maxWord32 := by
  have hfits : (∀ d ∈ ds, isListed ignoreWarnings d = true → ∀ p ∈ d.start, p.col < maxWord32) ↔
      ¬ Diagnostic.locations ignoreWarnings ds = .error .addition := by
    rw [locations_eq_error_iff]
    push Not
    rfl
  rw [hfits]
  cases hlocations : Diagnostic.locations ignoreWarnings ds with
  | error overflow =>
    cases overflow
    exact iff_of_false (fun ⟨_, h, _⟩ => nomatch h) fun h => h rfl
  | ok items => exact iff_of_true ⟨_, rfl, hasLines_locations hlocations⟩ fun h => nomatch h

/-- **When a listing has one line for each record.** Candidates and packages have just if no name,
and nothing of a kind that is shown, holds a line feed; so has a scope with its type, if its pattern
fits. Diagnostics have whatever their messages are, if their columns fit. -/
theorem listings_by_line (cs : List Completion) (ignoreWarnings : Bool) (ds : List Diagnostic)
    (packages : List String) (index : Nat) (s : Scope) :
    (HasLines cs.length (menu (cs.map Completion.menuItem)) ↔
      ∀ c ∈ cs, c.kind.toList.head? ≠ some '\n' ∧ IsLine c.name) ∧
    (HasLines cs.length (candidates (cs.map Completion.candidate)) ↔
      ∀ c ∈ cs, IsLine c.kind ∧ IsLine c.name) ∧
    (Prints (ds.countP (isListed ignoreWarnings))
        (locations <$> Diagnostic.locations ignoreWarnings ds) ↔
      ∀ d ∈ ds, isListed ignoreWarnings d = true → ∀ p ∈ d.start, p.col < maxWord32) ∧
    (HasLines packages.length (names packages) ↔ ∀ name ∈ packages, IsLine name) ∧
    (Prints 1 (scope (s.view index)) ↔ s.span.Fits ∧ IsLine s.type) :=
  ⟨hasLines_menu_iff cs, hasLines_candidates_iff cs, prints_locations_iff ignoreWarnings ds,
    hasLines_names_iff packages, prints_scope_iff index s⟩

/-- A type that the server wrote on two lines. -/
def onTwoLines : Scope := ⟨⟨⟨1, 0⟩, ⟨1, 5⟩⟩, "int ->\nint"⟩

theorem scope_on_two_lines :
    ∃ text, scope (onTwoLines.view 0) = .ok text ∧ ¬ HasLines 1 text := by
  have htype : ¬ IsLine onTwoLines.type := by decide
  have htext : scope (onTwoLines.view 0) =
      .ok "1:0-1:5\tint ->\nint\t\\%>0l\\%<2l\\%<6c\n" := by
    decide +kernel
  exact ⟨_, htext, fun h => htype ((prints_scope_iff 0 onTwoLines).mp ⟨_, htext, h⟩).2⟩

end Listing

end EditorBridge
