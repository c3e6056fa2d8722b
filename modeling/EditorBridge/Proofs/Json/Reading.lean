import EditorBridge.Proofs.Json.Spelling

/-!
# Texts and their documents

A document is read as the value that it stands for, whatever is open around it
(`Document.reads_lexemes`), as long as no more containers are open at once than a reader allows.
Conversely, what is read as a value begins with a document that stands for one
(`beginWithValues`). The second is by induction on the number of lexemes, with one lemma for what
follows an item (`exists_items`) and one for what follows a field (`exists_fields`).

With what is known of texts and lexemes this is the main statement, `ofChars?_eq_some_iff`: it says
without a lexer and without a stack which texts are read, and as what.
-/

namespace EditorBridge.Json

namespace Progress

theorem run_cons {p p' : Progress} {token : Token} (h : p.step token = some p')
    (tokens : List Token) : p.run (token :: tokens) = p'.run tokens := by
  rw [run, h]

theorem push_of_lt {stack : List Level} (h : stack.length < maxDepth) (want : Want)
    (level : Level) : push want level stack = some (.reading want (level :: stack)) := if_pos h

end Progress

/-! ## Reading lexemes -/

/-- What the reading of some lexemes leads to. -/
inductive Reads : Progress → List Lexeme → Progress → Prop
  | nil (p : Progress) : Reads p [] p
  | cons {p q r : Progress} {x : Lexeme} {t : Token} {lexemes : List Lexeme} :
      x.IsToken t → p.step t = some q → Reads q lexemes r → Reads p (x :: lexemes) r

namespace Reads

variable {p q r : Progress} {lexemes rest : List Lexeme}

theorem append (h : Reads p lexemes q) (hrest : Reads q rest r) : Reads p (lexemes ++ rest) r := by
  induction h with
  | nil => exact hrest
  | cons ht hstep _ ih => exact .cons ht hstep (ih hrest)

theorem iff_exists_run : Reads p lexemes q ↔ ∃ ts, AreTokens lexemes ts ∧ p.run ts = some q := by
  constructor
  · intro h
    induction h with
    | nil => exact ⟨[], .nil, rfl⟩
    | cons ht hstep _ ih =>
      obtain ⟨ts, hts, hrun⟩ := ih
      exact ⟨_ :: ts, .cons ht hts, (Progress.run_cons hstep ts).trans hrun⟩
  · rintro ⟨ts, hts, hrun⟩
    induction hts generalizing p with
    | nil =>
      obtain rfl := Option.some.inj hrun
      exact .nil p
    | @cons x t lexemes ts ht _ ih =>
      rw [Progress.run] at hrun
      cases hstep : p.step t with
      | none => simp [hstep] at hrun
      | some next =>
        rw [hstep] at hrun
        exact .cons ht hstep (ih hrun)

end Reads

/-! ### Inversion -/

/-- The first item of an array is read like any other value. -/
theorem reads_firstItem_iff {x : Lexeme} (hx : x ≠ .closeArray) {stack : List Level}
    {lexemes : List Lexeme} {p : Progress} :
    Reads (.reading .firstItem stack) (x :: lexemes) p ↔
      Reads (.reading .value stack) (x :: lexemes) p := by
  have hstep : ∀ t, x.IsToken t → (Progress.reading .firstItem stack).step t =
      (Progress.reading .value stack).step t := by
    intro t ht
    cases ht with
    | closeArray => exact absurd rfl hx
    | _ => rfl
  constructor
  · rintro (_ | ⟨ht, hnext, hrest⟩)
    exact .cons ht (hstep _ ht ▸ hnext) hrest
  · rintro (_ | ⟨ht, hnext, hrest⟩)
    exact .cons ht (hstep _ ht ▸ hnext) hrest

/-- What can follow an item or a field. -/
theorem Reads.more_cases {level : Level} {stack : List Level} {lexemes : List Lexeme} {v : Json}
    (h : Reads (.reading .more (level :: stack)) lexemes (.done v)) :
    (∃ rest next, lexemes = .comma :: rest ∧ Progress.afterComma (level :: stack) = some next ∧
        Reads next rest (.done v)) ∨
      (∃ rest acc, lexemes = .closeArray :: rest ∧ level = .array acc ∧
        Reads (Progress.supply (.array acc.reverse) stack) rest (.done v)) ∨
      ∃ rest acc name, lexemes = .closeObject :: rest ∧ level = .object acc name ∧
        Reads (Progress.supply (ofFields acc.reverse) stack) rest (.done v) := by
  cases h with
  | @cons _ next _ x t rest ht hstep hrest =>
    cases ht with
    | comma => exact Or.inl ⟨rest, next, rfl, hstep, hrest⟩
    | closeArray =>
      cases level with
      | array acc =>
        obtain rfl := Option.some.inj hstep
        exact Or.inr (Or.inl ⟨rest, acc, rfl, rfl, hrest⟩)
      | object acc name => cases hstep
    | closeObject =>
      cases level with
      | array acc => cases hstep
      | object acc name =>
        obtain rfl := Option.some.inj hstep
        exact Or.inr (Or.inr ⟨rest, acc, name, rfl, rfl, hrest⟩)
    | _ => cases hstep

/-- A field begins with its name and a colon. -/
theorem Reads.name_inv {acc : List (String × Json)} {name : String} {stack : List Level}
    {lexemes : List Lexeme} {v : Json}
    (h : Reads (.reading .name (.object acc name :: stack)) lexemes (.done v)) :
    ∃ letters text rest, lexemes = .string letters :: .colon :: rest ∧
      Letter.text? letters = some text ∧
      Reads (.reading .value (.object acc text :: stack)) rest (.done v) := by
  cases h with
  | cons ht hstep hrest =>
    cases ht with
    | string htext =>
      obtain rfl := Option.some.inj hstep
      cases hrest with
      | cons ht hstep hrest =>
        cases ht with
        | colon =>
          obtain rfl := Option.some.inj hstep
          exact ⟨_, _, _, rfl, htext, hrest⟩
        | _ => cases hstep
    | _ => cases hstep

/-- An object is empty, or begins with a name. -/
theorem Reads.firstName_cases {acc : List (String × Json)} {name : String} {stack : List Level}
    {lexemes : List Lexeme} {v : Json}
    (h : Reads (.reading .firstName (.object acc name :: stack)) lexemes (.done v)) :
    (∃ rest, lexemes = .closeObject :: rest ∧
        Reads (Progress.supply (ofFields acc.reverse) stack) rest (.done v)) ∨
      Reads (.reading .name (.object acc name :: stack)) lexemes (.done v) := by
  cases h with
  | cons ht hstep hrest =>
    cases ht with
    | closeObject =>
      obtain rfl := Option.some.inj hstep
      exact Or.inl ⟨_, rfl, hrest⟩
    | string htext => exact Or.inr (.cons (.string htext) hstep hrest)
    | _ => cases hstep

/-! ## Documents are read as their values -/

/-- What may come next in an array. -/
def wantItem (first : Bool) : Want := if first then .firstItem else .more

/-- What may come next in an object. -/
def wantName (first : Bool) : Want := if first then .firstName else .more

namespace Document

theorem lexemes_eq_cons (doc : Document) :
    ∃ x rest, doc.lexemes = x :: rest ∧ x ≠ .closeArray := by
  cases doc with
  | scalar s => exact ⟨_, _, rfl, by simp⟩
  | string letters => exact ⟨_, _, rfl, by simp⟩
  | array items => exact ⟨_, _, rfl, by simp⟩
  | object fields => exact ⟨_, _, rfl, by simp⟩

theorem reads_firstItem {doc : Document} {stack : List Level} {p : Progress}
    (h : Reads (.reading .value stack) doc.lexemes p) :
    Reads (.reading .firstItem stack) doc.lexemes p := by
  obtain ⟨x, rest, hlexemes, hx⟩ := doc.lexemes_eq_cons
  rw [hlexemes] at h ⊢
  exact (reads_firstItem_iff hx).mpr h

mutual

/-- **A document is read as its value.** -/
theorem reads_lexemes {doc : Document} {v : Json} (h : doc.value? = some v) {stack : List Level}
    (hdepth : doc.depth + stack.length ≤ maxDepth) :
    Reads (.reading .value stack) doc.lexemes (Progress.supply v stack) := by
  cases doc with
  | scalar s => exact .cons (.scalar h) rfl (.nil _)
  | string letters =>
    obtain ⟨text, htext, rfl⟩ := Option.map_eq_some_iff.mp h
    exact .cons (.string htext) rfl (.nil _)
  | array items =>
    rw [value?] at h
    obtain ⟨vs, hvs, rfl⟩ := Option.map_eq_some_iff.mp h
    rw [depth] at hdepth
    have hopen : (Progress.reading .value stack).step .openArray =
        some (.reading .firstItem (.array [] :: stack)) :=
      Progress.push_of_lt (by omega) .firstItem (.array [])
    rw [lexemes]
    exact .cons .openArray hopen (reads_itemLexemes hvs true [] (by omega))
  | object fields =>
    rw [value?] at h
    obtain ⟨vs, hvs, rfl⟩ := Option.map_eq_some_iff.mp h
    rw [depth] at hdepth
    have hopen : (Progress.reading .value stack).step .openObject =
        some (.reading .firstName (.object [] "" :: stack)) :=
      Progress.push_of_lt (by omega) .firstName (.object [] "")
    rw [lexemes]
    exact .cons .openObject hopen (reads_fieldLexemes hvs true [] "" (by omega))

theorem reads_itemLexemes {items : List Document} {vs : List Json}
    (h : itemValues? items = some vs) (first : Bool) (acc : List Json) {stack : List Level}
    (hdepth : itemDepth items + 1 + stack.length ≤ maxDepth) :
    Reads (.reading (wantItem first) (.array acc :: stack))
      (itemLexemes first items ++ [.closeArray])
      (Progress.supply (.array (acc.reverse ++ vs)) stack) := by
  cases items with
  | nil =>
    obtain rfl := Option.some.inj h
    have hclose : (Progress.reading (wantItem first) (.array acc :: stack)).step .closeArray =
        some (Progress.supply (.array acc.reverse) stack) := by
      cases first <;> rfl
    rw [itemLexemes, List.nil_append, List.append_nil]
    exact .cons .closeArray hclose (.nil _)
  | cons item items =>
    rw [itemValues?] at h
    obtain ⟨v, hv, h⟩ := Option.bind_eq_some_iff.mp h
    obtain ⟨vs, hvs, rfl⟩ := Option.map_eq_some_iff.mp h
    rw [itemDepth] at hdepth
    have hitem : Reads (.reading .value (.array acc :: stack)) item.lexemes
        (.reading .more (.array (v :: acc) :: stack)) :=
      reads_lexemes hv (by rw [List.length_cons]; omega)
    have hitems := @reads_itemLexemes _ _ hvs false (v :: acc) stack (by omega)
    rw [List.reverse_cons, List.append_assoc, List.singleton_append] at hitems
    rw [itemLexemes, List.append_assoc, List.append_assoc]
    cases first with
    | true => exact (reads_firstItem hitem).append hitems
    | false => exact .cons .comma rfl (hitem.append hitems)

theorem reads_fieldLexemes {fields : List (List Letter × Document)} {vs : List (String × Json)}
    (h : fieldValues? fields = some vs) (first : Bool) (acc : List (String × Json)) (name : String)
    {stack : List Level} (hdepth : fieldDepth fields + 1 + stack.length ≤ maxDepth) :
    Reads (.reading (wantName first) (.object acc name :: stack))
      (fieldLexemes first fields ++ [.closeObject])
      (Progress.supply (ofFields (acc.reverse ++ vs)) stack) := by
  cases fields with
  | nil =>
    obtain rfl := Option.some.inj h
    have hclose : (Progress.reading (wantName first) (.object acc name :: stack)).step
        .closeObject = some (Progress.supply (ofFields acc.reverse) stack) := by
      cases first <;> rfl
    rw [fieldLexemes, List.nil_append, List.append_nil]
    exact .cons .closeObject hclose (.nil _)
  | cons field fields =>
    obtain ⟨letters, value⟩ := field
    rw [fieldValues?] at h
    obtain ⟨text, htext, h⟩ := Option.bind_eq_some_iff.mp h
    obtain ⟨v, hv, h⟩ := Option.bind_eq_some_iff.mp h
    obtain ⟨vs, hvs, rfl⟩ := Option.map_eq_some_iff.mp h
    rw [fieldDepth] at hdepth
    have hvalue : Reads (.reading .value (.object acc text :: stack)) value.lexemes
        (.reading .more (.object ((text, v) :: acc) text :: stack)) :=
      reads_lexemes hv (by rw [List.length_cons]; omega)
    have hfields := @reads_fieldLexemes _ _ hvs false ((text, v) :: acc) text stack (by omega)
    rw [List.reverse_cons, List.append_assoc, List.singleton_append] at hfields
    rw [fieldLexemes, List.append_assoc, List.cons_append, List.cons_append, List.append_assoc]
    have hfield := hvalue.append hfields
    cases first with
    | true => exact .cons (.string htext) rfl (.cons .colon rfl hfield)
    | false => exact .cons .comma rfl (.cons (.string htext) rfl (.cons .colon rfl hfield))

end

end Document

/-! ## What is read is a document -/

/-- The lexemes begin with a document, whose value is read inside the open containers. -/
def BeginsWithValue (stack : List Level) (lexemes : List Lexeme) (v : Json) : Prop :=
  ∃ doc : Document, ∃ rest w, lexemes = doc.lexemes ++ rest ∧ doc.value? = some w ∧
    doc.depth + stack.length ≤ maxDepth ∧ Reads (Progress.supply w stack) rest (.done v)

/-- Lexemes begin with a document if a value is wanted, and there are fewer than some number of
them. -/
def BeginWithValues (n : Nat) : Prop :=
  ∀ {stack : List Level} {lexemes : List Lexeme} {v : Json}, lexemes.length < n →
    stack.length ≤ maxDepth → Reads (.reading .value stack) lexemes (.done v) →
    BeginsWithValue stack lexemes v

theorem exists_items {n : Nat} (hvalues : BeginWithValues n) {lexemes : List Lexeme}
    (hlength : lexemes.length < n) {acc : List Json} {stack : List Level} {v : Json}
    (hstack : stack.length < maxDepth)
    (h : Reads (.reading .more (.array acc :: stack)) lexemes (.done v)) :
    ∃ items rest vs, lexemes = Document.itemLexemes false items ++ .closeArray :: rest ∧
      Document.itemValues? items = some vs ∧
      Document.itemDepth items + 1 + stack.length ≤ maxDepth ∧
      Reads (Progress.supply (.array (acc.reverse ++ vs)) stack) rest (.done v) := by
  induction hm : lexemes.length using Nat.strong_induction_on generalizing lexemes acc with
  | h m ih =>
    obtain ⟨tail, next, rfl, hnext, htail⟩ | ⟨rest, acc, rfl, hacc, hrest⟩ |
      ⟨rest, _, _, -, hobject, -⟩ := h.more_cases
    · obtain rfl := Option.some.inj hnext
      rw [List.length_cons] at hlength hm
      have hinner : (Level.array acc :: stack).length ≤ maxDepth := hstack
      obtain ⟨doc, tail, w, rfl, hw, hdepth, htail⟩ := hvalues (by omega) hinner htail
      rw [List.length_append] at hlength hm
      obtain ⟨items, rest, vs, rfl, hvs, hitems, hrest⟩ :=
        ih tail.length (by omega) (by omega) htail rfl
      refine ⟨doc :: items, rest, w :: vs, ?_, ?_, ?_, ?_⟩
      · simp [Document.itemLexemes, commaLexeme]
      · rw [Document.itemValues?, hw, hvs]
        rfl
      · rw [List.length_cons] at hdepth
        rw [Document.itemDepth]
        omega
      · rwa [List.reverse_cons, List.append_assoc, List.singleton_append] at hrest
    · cases hacc
      refine ⟨[], rest, [], rfl, rfl, ?_, by rwa [List.append_nil]⟩
      rw [Document.itemDepth]
      omega
    · cases hobject

theorem exists_field {n : Nat} (hvalues : BeginWithValues n) {lexemes : List Lexeme}
    (hlength : lexemes.length < n) {acc : List (String × Json)} {name : String}
    {stack : List Level} {v : Json} (hstack : stack.length < maxDepth)
    (h : Reads (.reading .name (.object acc name :: stack)) lexemes (.done v)) :
    ∃ letters text doc rest w,
      lexemes = .string letters :: .colon :: (Document.lexemes doc ++ rest) ∧
      Letter.text? letters = some text ∧ doc.value? = some w ∧
      doc.depth + 1 + stack.length ≤ maxDepth ∧
      Reads (.reading .more (.object ((text, w) :: acc) text :: stack)) rest (.done v) := by
  obtain ⟨letters, text, tail, rfl, htext, htail⟩ := h.name_inv
  rw [List.length_cons, List.length_cons] at hlength
  have hinner : (Level.object acc text :: stack).length ≤ maxDepth := hstack
  obtain ⟨doc, rest, w, rfl, hw, hdepth, hrest⟩ := hvalues (by omega) hinner htail
  rw [List.length_cons] at hdepth
  exact ⟨letters, text, doc, rest, w, rfl, htext, hw, by omega, hrest⟩

theorem exists_fields {n : Nat} (hvalues : BeginWithValues n) {lexemes : List Lexeme}
    (hlength : lexemes.length < n) {acc : List (String × Json)} {name : String}
    {stack : List Level} {v : Json} (hstack : stack.length < maxDepth)
    (h : Reads (.reading .more (.object acc name :: stack)) lexemes (.done v)) :
    ∃ fields rest vs, lexemes = Document.fieldLexemes false fields ++ .closeObject :: rest ∧
      Document.fieldValues? fields = some vs ∧
      Document.fieldDepth fields + 1 + stack.length ≤ maxDepth ∧
      Reads (Progress.supply (ofFields (acc.reverse ++ vs)) stack) rest (.done v) := by
  induction hm : lexemes.length using Nat.strong_induction_on generalizing lexemes acc name with
  | h m ih =>
    obtain ⟨tail, next, rfl, hnext, htail⟩ | ⟨_, _, -, harray, -⟩ |
      ⟨rest, acc, name, rfl, hacc, hrest⟩ := h.more_cases
    · obtain rfl := Option.some.inj hnext
      rw [List.length_cons] at hlength hm
      obtain ⟨letters, text, doc, tail, w, rfl, htext, hw, hdepth, htail⟩ :=
        exists_field hvalues (by omega) hstack htail
      rw [List.length_cons, List.length_cons, List.length_append] at hlength hm
      obtain ⟨fields, rest, vs, rfl, hvs, hfields, hrest⟩ :=
        ih tail.length (by omega) (by omega) htail rfl
      refine ⟨(letters, doc) :: fields, rest, (text, w) :: vs, ?_, ?_, ?_, ?_⟩
      · simp [Document.fieldLexemes, commaLexeme]
      · rw [Document.fieldValues?, htext, hw, hvs]
        rfl
      · rw [Document.fieldDepth]
        omega
      · rwa [List.reverse_cons, List.append_assoc, List.singleton_append] at hrest
    · cases harray
    · cases hacc
      refine ⟨[], rest, [], rfl, rfl, ?_, by rwa [List.append_nil]⟩
      rw [Document.fieldDepth]
      omega

/-- An array that has been opened. -/
theorem exists_array {n : Nat} (hvalues : BeginWithValues n) {lexemes : List Lexeme}
    (hlength : lexemes.length < n) {stack : List Level} {v : Json}
    (hstack : stack.length < maxDepth)
    (h : Reads (.reading .firstItem (.array [] :: stack)) lexemes (.done v)) :
    BeginsWithValue stack (.openArray :: lexemes) v := by
  cases h with
  | @cons _ _ _ x t lexemes ht hstep hrest =>
    by_cases hx : x = .closeArray
    · subst hx
      cases ht
      obtain rfl := Option.some.inj hstep
      refine ⟨.array [], lexemes, .array [], rfl, rfl, ?_, hrest⟩
      rw [Document.depth, Document.itemDepth]
      omega
    · have hinner : (Level.array [] :: stack).length ≤ maxDepth := hstack
      obtain ⟨doc, tail, w, hlexemes, hw, hdepth, htail⟩ :=
        hvalues hlength hinner ((reads_firstItem_iff hx).mp (.cons ht hstep hrest))
      rw [List.length_cons] at hdepth
      rw [hlexemes, List.length_append] at hlength
      obtain ⟨items, rest, vs, rfl, hvs, hitems, hrest⟩ :=
        exists_items hvalues (by omega) hstack htail
      refine ⟨.array (doc :: items), rest, .array (w :: vs), ?_, ?_, ?_, hrest⟩
      · simp [hlexemes, Document.lexemes, Document.itemLexemes, commaLexeme]
      · rw [Document.value?, Document.itemValues?, hw, hvs]
        rfl
      · rw [Document.depth, Document.itemDepth]
        omega

/-- An object that has been opened. -/
theorem exists_object {n : Nat} (hvalues : BeginWithValues n) {lexemes : List Lexeme}
    (hlength : lexemes.length < n) {stack : List Level} {v : Json}
    (hstack : stack.length < maxDepth)
    (h : Reads (.reading .firstName (.object [] "" :: stack)) lexemes (.done v)) :
    BeginsWithValue stack (.openObject :: lexemes) v := by
  obtain ⟨rest, rfl, hrest⟩ | hname := h.firstName_cases
  · refine ⟨.object [], rest, ofFields [], rfl, rfl, ?_, hrest⟩
    rw [Document.depth, Document.fieldDepth]
    omega
  · obtain ⟨letters, text, doc, tail, w, rfl, htext, hw, hdepth, htail⟩ :=
      exists_field hvalues hlength hstack hname
    rw [List.length_cons, List.length_cons, List.length_append] at hlength
    obtain ⟨fields, rest, vs, rfl, hvs, hfields, hrest⟩ :=
      exists_fields hvalues (by omega) hstack htail
    refine ⟨.object ((letters, doc) :: fields), rest, ofFields ((text, w) :: vs), ?_, ?_, ?_, hrest⟩
    · simp [Document.lexemes, Document.fieldLexemes, commaLexeme]
    · rw [Document.value?, Document.fieldValues?, htext, hw, hvs]
      rfl
    · rw [Document.depth, Document.fieldDepth]
      omega

/-- **What is read as a value begins with a document.** -/
theorem beginWithValues (n : Nat) : BeginWithValues n := by
  induction n with
  | zero => exact fun hlength => absurd hlength (Nat.not_lt_zero _)
  | succ n ih =>
    intro stack lexemes v hlength hstack h
    cases h with
    | @cons _ _ _ x t lexemes ht hstep hrest =>
      have hshorter : lexemes.length < n := Nat.lt_of_succ_lt_succ hlength
      cases ht with
      | scalar hw =>
        obtain rfl := Option.some.inj hstep
        exact ⟨.scalar _, lexemes, _, rfl, hw, by rwa [Document.depth, Nat.zero_add], hrest⟩
      | @string letters text htext =>
        obtain rfl := Option.some.inj hstep
        refine ⟨.string letters, lexemes, .string text, rfl, ?_, ?_, hrest⟩
        · rw [Document.value?, htext]
          rfl
        · rwa [Document.depth, Nat.zero_add]
      | openArray =>
        simp only [Progress.step, Progress.beginValue, Progress.push,
          Option.ite_none_right_eq_some, Option.some.injEq] at hstep
        obtain ⟨hinner, rfl⟩ := hstep
        exact exists_array ih hshorter hinner hrest
      | openObject =>
        simp only [Progress.step, Progress.beginValue, Progress.push,
          Option.ite_none_right_eq_some, Option.some.injEq] at hstep
        obtain ⟨hinner, rfl⟩ := hstep
        exact exists_object ih hshorter hinner hrest
      | _ => cases hstep

/-! ## Texts -/

/-- After a scalar there is no place for another one. -/
theorem step_scalar_scalar {p q : Progress} {v : Json} (h : p.step (.scalar v) = some q)
    (w : Json) : q.step (.scalar w) = none := by
  obtain ⟨stack, rfl⟩ : ∃ stack, q = Progress.supply v stack := by
    cases p with
    | done => cases h
    | reading want stack =>
      cases want with
      | value => exact ⟨stack, (Option.some.inj h).symm⟩
      | firstItem => exact ⟨stack, (Option.some.inj h).symm⟩
      | _ => cases h
  rcases stack with _ | ⟨_ | _, stack⟩ <;> rfl

theorem Reads.separated {p q : Progress} {lexemes : List Lexeme} (h : Reads p lexemes q) :
    Separated lexemes := by
  induction h with
  | nil => exact .nil
  | cons ht hstep hrest ih =>
    refine List.isChain_cons.mpr ⟨?_, ih⟩
    intro y hy hscalar
    cases ht with
    | scalar =>
      cases hrest with
      | nil => cases hy
      | cons hu hnext =>
        obtain rfl := Option.some.inj hy
        cases hu with
        | scalar =>
          rw [step_scalar_scalar hstep] at hnext
          cases hnext
        | _ => rfl
    | _ => cases hscalar

/-- **A text is read as a value exactly if it is how a document is written that stands for the
value,** and whose containers are not nested too deep. -/
theorem ofChars?_eq_some_iff {cs : List Char} {v : Json} :
    ofChars? cs = some v ↔
      ∃ doc : Document, doc.IsWritten cs ∧ doc.depth ≤ maxDepth ∧ doc.value? = some v := by
  constructor
  · intro h
    obtain ⟨ts, hlex, h⟩ := Option.bind_eq_some_iff.mp h
    obtain ⟨p, hrun, hp⟩ := Option.bind_eq_some_iff.mp h
    obtain rfl : p = .done v := by
      cases p with
      | reading => cases hp
      | done w => exact congrArg Progress.done (Option.some.inj hp)
    obtain ⟨lexemes, us, hspelled, htokens, hts⟩ := @exists_isSpelled cs [] ts hlex
    rw [List.reverse_nil, List.nil_append] at hts
    subst hts
    have hreads : Reads (.reading .value []) lexemes (.done v) :=
      Reads.iff_exists_run.mpr ⟨ts, htokens, hrun⟩
    obtain ⟨doc, rest, w, rfl, hw, hdepth, hrest⟩ :=
      beginWithValues _ (Nat.lt_succ_self _) (Nat.zero_le _) hreads
    cases hrest with
    | nil =>
      rw [List.append_nil] at hspelled
      exact ⟨doc, hspelled, hdepth, hw⟩
    | cons _ hstep => cases hstep
  · rintro ⟨doc, hwritten, hdepth, hvalue⟩
    have hreads : Reads (.reading .value []) doc.lexemes (.done v) :=
      Document.reads_lexemes hvalue hdepth
    obtain ⟨ts, htokens, hrun⟩ := Reads.iff_exists_run.mp hreads
    have hlex : tokens? cs = some ts := hwritten.lex_eq hreads.separated htokens []
    rw [ofChars?, hlex, Option.bind_some, Progress.initial, hrun]
    rfl

end EditorBridge.Json
