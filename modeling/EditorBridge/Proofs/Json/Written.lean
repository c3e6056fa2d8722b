import EditorBridge.Json.Token
import EditorBridge.Proofs.Json.Integer

/-!
# The written form of a value

`chars` is what is written of a value, from left to right (`toList_render`). Whatever the value, it
is on one line: no line feed is written (`lineFeed_notMem_chars`).
-/

namespace EditorBridge.Json

/-! ## What is written -/

/-- A string in quotation marks. -/
def quoted (s : String) : List Char := '"' :: (s.toList.flatMap escape ++ ['"'])

mutual

/-- What is written of a value, from left to right. -/
def chars : Json → List Char
  | .null => ['n', 'u', 'l', 'l']
  | .bool true => ['t', 'r', 'u', 'e']
  | .bool false => ['f', 'a', 'l', 's', 'e']
  | .number n => n.render
  | .string s => quoted s
  | .array items => '[' :: (itemChars true items ++ [']'])
  | .object fields => '\x7b' :: (fieldChars true fields ++ ['\x7d'])

/-- What is written between the brackets of an array. -/
def itemChars : Bool → List Json → List Char
  | _, [] => []
  | first, item :: items => emitComma first [] ++ (chars item ++ itemChars false items)

/-- What is written between the braces of an object. -/
def fieldChars : Bool → List (String × Json) → List Char
  | _, [] => []
  | first, (name, value) :: fields =>
    emitComma first [] ++ (quoted name ++ ':' :: (chars value ++ fieldChars false fields))

end

theorem emitComma_eq (first : Bool) (out : List Char) :
    emitComma first out = (emitComma first []).reverse ++ out := by
  cases first <;> rfl

theorem foldl_escape (cs out : List Char) :
    cs.foldl (fun out c => (escape c).reverse ++ out) out =
      (cs.flatMap escape).reverse ++ out := by
  induction cs generalizing out with
  | nil => rfl
  | cons c cs ih =>
    rw [List.foldl_cons, ih, List.flatMap_cons, List.reverse_append, List.append_assoc]

theorem emitString_eq (s : String) (out : List Char) :
    emitString s out = (quoted s).reverse ++ out := by
  rw [emitString, foldl_escape, quoted]
  simp

mutual

theorem emit_eq (v : Json) (out : List Char) : emit v out = (chars v).reverse ++ out := by
  cases v with
  | null => rfl
  | bool b => cases b <;> rfl
  | number n => rw [emit, chars]
  | string s => rw [emit, chars, emitString_eq]
  | array items =>
    rw [emit, chars, emitItems_eq]
    simp
  | object fields =>
    rw [emit, chars, emitFields_eq]
    simp

theorem emitItems_eq (first : Bool) (items : List Json) (out : List Char) :
    emitItems first items out = (itemChars first items).reverse ++ out := by
  cases items with
  | nil => rfl
  | cons item items =>
    rw [emitItems, itemChars, emitItems_eq false items, emit_eq item, emitComma_eq]
    simp

theorem emitFields_eq (first : Bool) (fields : List (String × Json)) (out : List Char) :
    emitFields first fields out = (fieldChars first fields).reverse ++ out := by
  cases fields with
  | nil => rfl
  | cons field fields =>
    obtain ⟨name, value⟩ := field
    rw [emitFields, fieldChars, emitFields_eq false fields, emit_eq value, emitString_eq,
      emitComma_eq]
    simp

end

/-- **A value is written from left to right.** -/
theorem toList_render (v : Json) : v.render.toList = chars v := by
  rw [render, emit_eq]
  simp

/-! ## No line feed is written -/

theorem isNumberChar_of_mem_toDigits {n : Nat} {c : Char} (h : c ∈ Nat.toDigits 10 n) :
    isNumberChar c = true :=
  isNumberChar_of_isDigit (Literal.isDigit_of_mem_toDigits h)

theorem isNumberChar_of_mem_renderDecimal (d : Magnitude.Decimal) :
    ∀ c ∈ Binary64.renderDecimal d, isNumberChar c = true := by
  have hdigits : ∀ n : Nat, ∀ c ∈ (toString n).toList, isNumberChar c = true := by
    intro n c hc
    rw [Nat.toString_eq_repr, Nat.toList_repr] at hc
    exact isNumberChar_of_mem_toDigits hc
  have htake : ∀ k, ∀ c ∈ (toString d.digits).toList.take k, isNumberChar c = true :=
    fun k c hc => hdigits _ c (List.mem_of_mem_take hc)
  have hdrop : ∀ k, ∀ c ∈ (toString d.digits).toList.drop k, isNumberChar c = true :=
    fun k c hc => hdigits _ c (List.mem_of_mem_drop hc)
  have hzeros : ∀ k, ∀ c ∈ List.replicate k '0', isNumberChar c = true := by
    intro k c hc
    rw [(List.mem_replicate.mp hc).2]
    rfl
  unfold Binary64.renderDecimal
  simp only
  split
  · refine List.forall_mem_append.mpr ⟨List.forall_mem_append.mpr ⟨htake 1, ?_⟩, ?_⟩
    · split
      · exact List.forall_mem_nil _
      · exact List.forall_mem_cons.mpr ⟨rfl, hdrop 1⟩
    · refine List.forall_mem_cons.mpr ⟨rfl, List.forall_mem_cons.mpr ⟨?_, hdigits _⟩⟩
      split <;> rfl
  · split
    · exact List.forall_mem_cons.mpr ⟨rfl, List.forall_mem_cons.mpr ⟨rfl,
        List.forall_mem_append.mpr ⟨hzeros _, hdigits _⟩⟩⟩
    · refine List.forall_mem_append.mpr ⟨List.forall_mem_append.mpr ⟨htake _, hzeros _⟩, ?_⟩
      refine List.forall_mem_cons.mpr ⟨rfl, ?_⟩
      split
      · exact List.forall_mem_singleton.mpr rfl
      · exact hdrop _

theorem isNumberChar_of_mem_render (n : Number) : ∀ c ∈ n.render, isNumberChar c = true := by
  cases n with
  | integer n =>
    cases n with
    | ofNat n =>
      intro c hc
      change c ∈ (Number.integer n).render at hc
      rw [Number.render_ofNat] at hc
      exact isNumberChar_of_mem_toDigits hc
    | negSucc n =>
      rw [Number.render_negSucc]
      exact List.forall_mem_cons.mpr ⟨rfl, fun c hc => isNumberChar_of_mem_toDigits hc⟩
  | double x =>
    change ∀ c ∈ x.render, isNumberChar c = true
    have hmagnitude : ∀ c ∈ (if x.magnitude.significand = 0 then ['0', '.', '0']
        else Binary64.renderDecimal x.magnitude.shortest), isNumberChar c = true := by
      split
      · exact List.forall_mem_cons.mpr ⟨rfl, List.forall_mem_cons.mpr ⟨rfl,
          List.forall_mem_singleton.mpr rfl⟩⟩
      · exact isNumberChar_of_mem_renderDecimal _
    unfold Binary64.render
    simp only
    split
    · exact List.forall_mem_cons.mpr ⟨rfl, hmagnitude⟩
    · exact hmagnitude

theorem hexDigit_ne_lineFeed : ∀ n < 16, hexDigit n ≠ '\n' := by decide

theorem lineFeed_notMem_escapeControl {c : Char} (h : c.toNat < 0x20) :
    '\n' ∉ escapeControl c := by
  have hhigh : '\n' ≠ hexDigit (c.toNat / 16) := (hexDigit_ne_lineFeed _ (by omega)).symm
  have hlow : '\n' ≠ hexDigit (c.toNat % 16) := (hexDigit_ne_lineFeed _ (by omega)).symm
  unfold escapeControl
  split
  case h_6 => simp [hhigh, hlow]
  all_goals decide

theorem lineFeed_notMem_escape (c : Char) : '\n' ∉ escape c := by
  unfold escape
  split
  · decide
  · split
    · decide
    · split
      · exact lineFeed_notMem_escapeControl ‹_›
      · rename_i hcontrol
        intro hmem
        rw [← List.mem_singleton.mp hmem] at hcontrol
        exact hcontrol (by decide)

theorem lineFeed_notMem_quoted (s : String) : '\n' ∉ quoted s := by
  have hbody : '\n' ∉ s.toList.flatMap escape := by
    intro hmem
    obtain ⟨c, -, hc⟩ := List.mem_flatMap.mp hmem
    exact lineFeed_notMem_escape c hc
  simp [quoted, hbody]

theorem lineFeed_notMem_emitComma (first : Bool) : '\n' ∉ emitComma first [] := by
  cases first <;> decide

mutual

/-- **What is written of a value is on one line.** -/
theorem lineFeed_notMem_chars (v : Json) : '\n' ∉ chars v := by
  cases v with
  | null => decide
  | bool b => cases b <;> decide
  | number n =>
    rw [chars]
    intro hmem
    exact absurd (isNumberChar_of_mem_render n _ hmem) (by decide)
  | string s =>
    rw [chars]
    exact lineFeed_notMem_quoted s
  | array items =>
    have hitems := lineFeed_notMem_itemChars true items
    simp [chars, hitems]
  | object fields =>
    have hfields := lineFeed_notMem_fieldChars true fields
    simp [chars, hfields]

theorem lineFeed_notMem_itemChars (first : Bool) (items : List Json) :
    '\n' ∉ itemChars first items := by
  cases items with
  | nil => exact List.not_mem_nil
  | cons item items =>
    have hitem := lineFeed_notMem_chars item
    have hitems := lineFeed_notMem_itemChars false items
    simp [itemChars, lineFeed_notMem_emitComma, hitem, hitems]

theorem lineFeed_notMem_fieldChars (first : Bool) (fields : List (String × Json)) :
    '\n' ∉ fieldChars first fields := by
  cases fields with
  | nil => exact List.not_mem_nil
  | cons field fields =>
    obtain ⟨name, value⟩ := field
    have hvalue := lineFeed_notMem_chars value
    have hfields := lineFeed_notMem_fieldChars false fields
    simp [fieldChars, lineFeed_notMem_emitComma, lineFeed_notMem_quoted, hvalue, hfields]

end

end EditorBridge.Json
