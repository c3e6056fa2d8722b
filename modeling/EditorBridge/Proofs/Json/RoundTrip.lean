import EditorBridge.Proofs.Json.Reading
import EditorBridge.Proofs.Json.Written

/-!
# Reading back a written value

A value is plain if its numbers are integers of 64 bits, and so are those of the values in it
(`IsPlain`). What is written of a plain value is how a document is written that stands for the
value (`IsPlain.exists_document`), so the value is read back (`ofChars?_chars`).
-/

namespace EditorBridge.Json

/-! ## Plain values -/

/-- A value is nested at most some number of containers deep, its numbers are integers of 64 bits,
and the fields of its objects are in the order of their names, each name once. -/
inductive IsPlain : Nat → Json → Prop
  | null (depth : Nat) : IsPlain depth .null
  | bool (depth : Nat) (b : Bool) : IsPlain depth (.bool b)
  | number (depth : Nat) {n : Number} : n.IsWord → IsPlain depth (.number n)
  | string (depth : Nat) (s : String) : IsPlain depth (.string s)
  | array {depth : Nat} {items : List Json} :
      (∀ item ∈ items, IsPlain depth item) → IsPlain (depth + 1) (.array items)
  | object {depth : Nat} {fields : List (String × Json)} :
      fields.Pairwise (fun a b => a.1 < b.1) → (∀ field ∈ fields, IsPlain depth field.2) →
      IsPlain (depth + 1) (.object fields)

/-! ## Objects -/

theorem lastOfEachName_of_pairwise {fields : List (String × Json)}
    (h : fields.Pairwise fun a b => a.1 < b.1) : lastOfEachName fields = fields := by
  induction fields with
  | nil => rfl
  | cons field fields ih =>
    obtain ⟨hfield, hfields⟩ := List.pairwise_cons.mp h
    have hrest := ih hfields
    unfold lastOfEachName at hrest ⊢
    rw [List.foldr_cons, hrest]
    cases fields with
    | nil => rfl
    | cons next fields =>
      have hne : field.1 ≠ next.1 := String.ne_of_lt (hfield next List.mem_cons_self)
      simp [hne]

/-- Fields in the order of their names stay as they are. -/
theorem ofFields_of_pairwise {fields : List (String × Json)}
    (h : fields.Pairwise fun a b => a.1 < b.1) : ofFields fields = .object fields := by
  have hle : fields.Pairwise fun a b => fieldLe a b = true := by
    refine h.imp ?_
    intro a b hlt
    exact decide_eq_true (Std.le_of_lt hlt)
  rw [ofFields, List.mergeSort_of_pairwise hle, lastOfEachName_of_pairwise h]

/-! ## Strings -/

theorem hexValue?_hexDigit : ∀ n < 16, Text.hexValue? (hexDigit n) = some n := by decide

theorem isWritten_hexDigits {n : Nat} (h : n < 0x20) :
    (Letter.unit n).IsWritten ['\\', 'u', '0', '0', hexDigit (n / 16), hexDigit (n % 16)] := by
  have hhigh := hexValue?_hexDigit (n / 16) (by omega)
  have hlow := hexValue?_hexDigit (n % 16) (by omega)
  have hvalue : 16 * (16 * (16 * 0 + 0) + n / 16) + n % 16 = n := by omega
  have hwritten := @Letter.IsWritten.unicode '0' '0' _ _ 0 0 _ _ (by decide) (by decide) hhigh hlow
  rwa [hvalue] at hwritten

/-- The escape of a control character is a letter that stands for it. -/
theorem exists_isWritten_escapeControl {c : Char} (h : c.toNat < 0x20) :
    ∃ letter : Letter, letter.IsWritten (escapeControl c) ∧ Letter.Stands [letter] c := by
  have hc : ∀ n, c.toNat = n → c = Char.ofNat n := by
    rintro n rfl
    exact (Char.ofNat_toNat c).symm
  unfold escapeControl
  split
  case h_6 =>
    have hhigh : isHigh c.toNat = false := by simp [isHigh]; omega
    have hlow : isLow c.toNat = false := by simp [isLow]; omega
    have hstands := Letter.Stands.unit hhigh hlow
    rw [Char.ofNat_toNat] at hstands
    exact ⟨.unit c.toNat, isWritten_hexDigits h, hstands⟩
  -- the characters that have an escape of their own
  all_goals
    obtain rfl := hc _ ‹_›
    exact ⟨.char _, .escape rfl, .char _⟩

/-- **What is written of a character is a letter that stands for it.** -/
theorem exists_isWritten_escape (c : Char) :
    ∃ letter : Letter, letter.IsWritten (escape c) ∧ Letter.Stands [letter] c := by
  unfold escape
  split_ifs with hquote hslash hcontrol
  · subst hquote
    exact ⟨.char '"', .escape rfl, .char '"'⟩
  · subst hslash
    exact ⟨.char '\\', .escape rfl, .char '\\'⟩
  · exact exists_isWritten_escapeControl hcontrol
  · exact ⟨.char c, .plain hquote hslash (Nat.not_lt.mp hcontrol), .char c⟩

theorem exists_letters (cs : List Char) :
    ∃ letters, Letter.AreWritten letters (cs.flatMap escape) ∧ Letter.chars? letters = some cs := by
  induction cs with
  | nil => exact ⟨[], .nil, rfl⟩
  | cons c cs ih =>
    obtain ⟨letter, hwritten, hstands⟩ := exists_isWritten_escape c
    obtain ⟨letters, hletters, hcs⟩ := ih
    refine ⟨letter :: letters, .cons hwritten hletters, ?_⟩
    rw [← List.singleton_append, hstands.chars?_append, hcs, Option.map_some]

/-- A string is written as a lexeme that stands for it. -/
theorem exists_isWritten_quoted (s : String) :
    ∃ letters, (Lexeme.string letters).IsWritten (quoted s) ∧ Letter.text? letters = some s := by
  obtain ⟨letters, hletters, hs⟩ := exists_letters s.toList
  refine ⟨letters, .string hletters, ?_⟩
  rw [Letter.text?, hs, Option.map_some, String.ofList_toList]

/-! ## Values -/

/-- A document that stands for a value, and is written like it. -/
structure IsDocumentOf (v : Json) (depth : Nat) (doc : Document) : Prop where
  written : doc.IsWritten (chars v)
  depth_le : doc.depth ≤ depth
  value : doc.value? = some v

theorem isSpelled_comma (first : Bool) :
    IsSpelled (commaLexeme first) (emitComma first []) := by
  cases first with
  | true => exact .nil
  | false => exact isSpelled_singleton .comma

theorem exists_itemDocuments {depth : Nat} {items : List Json}
    (h : ∀ item ∈ items, ∃ doc, IsDocumentOf item depth doc) (first : Bool) :
    ∃ docs, IsSpelled (Document.itemLexemes first docs) (itemChars first items) ∧
      Document.itemDepth docs ≤ depth ∧ Document.itemValues? docs = some items := by
  induction items generalizing first with
  | nil => exact ⟨[], .nil, Nat.zero_le _, rfl⟩
  | cons item items ih =>
    obtain ⟨⟨doc, hdoc⟩, hitems⟩ := List.forall_mem_cons.mp h
    obtain ⟨docs, hdocs, hdepth, hvalues⟩ := ih hitems false
    refine ⟨doc :: docs, ?_, ?_, ?_⟩
    · exact (isSpelled_comma first).append (hdoc.written.append hdocs)
    · rw [Document.itemDepth]
      exact Nat.max_le.mpr ⟨hdoc.depth_le, hdepth⟩
    · rw [Document.itemValues?, hdoc.value, hvalues]
      rfl

theorem exists_fieldDocuments {depth : Nat} {fields : List (String × Json)}
    (h : ∀ field ∈ fields, ∃ doc, IsDocumentOf field.2 depth doc) (first : Bool) :
    ∃ docs, IsSpelled (Document.fieldLexemes first docs) (fieldChars first fields) ∧
      Document.fieldDepth docs ≤ depth ∧ Document.fieldValues? docs = some fields := by
  induction fields generalizing first with
  | nil => exact ⟨[], .nil, Nat.zero_le _, rfl⟩
  | cons field fields ih =>
    obtain ⟨name, value⟩ := field
    obtain ⟨⟨doc, hdoc⟩, hfields⟩ := List.forall_mem_cons.mp h
    obtain ⟨docs, hdocs, hdepth, hvalues⟩ := ih hfields false
    obtain ⟨letters, hletters, htext⟩ := exists_isWritten_quoted name
    refine ⟨(letters, doc) :: docs, ?_, ?_, ?_⟩
    · have hcolon : IsSpelled (.colon :: (doc.lexemes ++ Document.fieldLexemes false docs))
          (':' :: (chars value ++ fieldChars false fields)) :=
        .cons .colon (hdoc.written.append hdocs)
      exact (isSpelled_comma first).append (.cons hletters hcolon)
    · rw [Document.fieldDepth]
      exact Nat.max_le.mpr ⟨hdoc.depth_le, hdepth⟩
    · rw [Document.fieldValues?, htext, hdoc.value, hvalues]
      rfl

/-- **What is written of a plain value is a document that stands for it.** -/
theorem IsPlain.exists_document {depth : Nat} {v : Json} (h : IsPlain depth v) :
    ∃ doc, IsDocumentOf v depth doc := by
  induction h with
  | null => exact ⟨.scalar .null, isSpelled_singleton (.scalar .null), Nat.zero_le _, rfl⟩
  | bool depth b =>
    refine ⟨.scalar (.bool b), isSpelled_singleton (.scalar ?_), Nat.zero_le _, rfl⟩
    cases b with
    | true => exact .true
    | false => exact .false
  | number depth hn =>
    obtain ⟨l, hl, hvalue⟩ := Number.exists_isWritten_render hn
    exact ⟨.scalar (.number l), isSpelled_singleton (.scalar (.number hl)), Nat.zero_le _,
      Option.map_eq_some_iff.mpr ⟨_, hvalue, rfl⟩⟩
  | string depth s =>
    obtain ⟨letters, hletters, htext⟩ := exists_isWritten_quoted s
    exact ⟨.string letters, isSpelled_singleton hletters, Nat.zero_le _,
      Option.map_eq_some_iff.mpr ⟨_, htext, rfl⟩⟩
  | @array depth items _ ih =>
    obtain ⟨docs, hdocs, hdepth, hvalues⟩ := exists_itemDocuments ih true
    refine ⟨.array docs, ?_, Nat.succ_le_succ hdepth, ?_⟩
    · exact .cons .openArray (hdocs.append (isSpelled_singleton .closeArray))
    · rw [Document.value?, hvalues, Option.map_some]
  | @object depth fields hfields _ ih =>
    obtain ⟨docs, hdocs, hdepth, hvalues⟩ := exists_fieldDocuments ih true
    refine ⟨.object docs, ?_, Nat.succ_le_succ hdepth, ?_⟩
    · exact .cons .openObject (hdocs.append (isSpelled_singleton .closeObject))
    · rw [Document.value?, hvalues, Option.map_some, ofFields_of_pairwise hfields]

/-- **A plain value is read back from what is written of it.** -/
theorem ofChars?_chars {v : Json} (h : IsPlain maxDepth v) : ofChars? (chars v) = some v := by
  obtain ⟨doc, hwritten, hdepth, hvalue⟩ := h.exists_document
  exact ofChars?_eq_some_iff.mpr ⟨doc, hwritten, hdepth, hvalue⟩

end EditorBridge.Json
