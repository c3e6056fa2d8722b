import EditorBridge.Proofs.Json.Lexing
import Mathlib.Data.List.Chain
import Mathlib.Data.List.Forall2

/-!
# Texts and their lexemes

A text that is written in lexemes is cut into their tokens (`IsSpelled.lex_eq`), if no two scalars
stand side by side. Conversely, the tokens that a text is cut into are those of lexemes that it is
written in (`exists_isSpelled`).
-/

namespace EditorBridge.Json

/-! ## Lexemes -/

/-- The token that a lexeme is read as, if it stands for something. -/
inductive Lexeme.IsToken : Lexeme → Token → Prop
  | openArray : IsToken .openArray .openArray
  | closeArray : IsToken .closeArray .closeArray
  | openObject : IsToken .openObject .openObject
  | closeObject : IsToken .closeObject .closeObject
  | comma : IsToken .comma .comma
  | colon : IsToken .colon .colon
  | string {letters : List Letter} {text : String} :
      Letter.text? letters = some text → IsToken (.string letters) (.string text)
  | scalar {s : Scalar} {v : Json} : s.value? = some v → IsToken (.scalar s) (.scalar v)

def Lexeme.isScalar : Lexeme → Bool
  | .scalar _ => true
  | _ => false

/-- The lexemes are read as the tokens, one by one. -/
def AreTokens (lexemes : List Lexeme) (ts : List Token) : Prop :=
  List.Forall₂ Lexeme.IsToken lexemes ts

/-- A lexeme is one token, if a scalar is not followed by what could belong to it. -/
theorem lex_lexeme {x : Lexeme} {part : List Char} {t : Token} (h : x.IsWritten part)
    (ht : x.IsToken t) (acc : List Token) {rest : List Char}
    (hrest : x.isScalar = true → Stops rest) :
    lex ⟨.nothing, acc⟩ (part ++ rest) = lex ⟨.nothing, t :: acc⟩ rest := by
  cases ht with
  | string htext =>
    obtain ⟨s, hs, rfl⟩ := Option.map_eq_some_iff.mp htext
    cases h with
    | string hbody =>
      have hopen : (Lexer.mk .nothing acc).step '"' = some ⟨.text [], acc⟩ := rfl
      rw [List.cons_append, lex_cons hopen, List.append_assoc, List.singleton_append,
        lex_areWritten hbody hs]
      rfl
  | scalar hv =>
    cases h with
    | scalar hs => exact lex_scalar hs hv acc (hrest rfl)
  | _ =>
    cases h
    rfl

/-- What a character between tokens can begin. -/
inductive Begins (c : Char) : Pending × Option Token → Prop
  | space : isSpace c = true → Begins c (.nothing, none)
  | quote : c = '"' → Begins c (.text [], none)
  | lexeme {x : Lexeme} {t : Token} :
      x.IsWritten [c] → x.IsToken t → Begins c (.nothing, some t)
  | number : Begins c (.number [c], none)
  | word : Begins c (.word [c], none)

theorem begins_of_begin? {c : Char} {next : Pending × Option Token} (h : begin? c = some next) :
    Begins c next := by
  rw [begin?] at h
  by_cases hspace : isSpace c = true
  · rw [if_pos hspace] at h
    exact Option.some.inj h ▸ .space hspace
  rw [if_neg hspace] at h
  by_cases hquote : c = '"'
  · rw [if_pos hquote] at h
    exact Option.some.inj h ▸ .quote hquote
  rw [if_neg hquote] at h
  by_cases hopenArray : c = '['
  · subst hopenArray
    exact Option.some.inj h ▸ .lexeme .openArray .openArray
  rw [if_neg hopenArray] at h
  by_cases hcloseArray : c = ']'
  · subst hcloseArray
    exact Option.some.inj h ▸ .lexeme .closeArray .closeArray
  rw [if_neg hcloseArray] at h
  by_cases hopenObject : c = '\x7b'
  · subst hopenObject
    exact Option.some.inj h ▸ .lexeme .openObject .openObject
  rw [if_neg hopenObject] at h
  by_cases hcloseObject : c = '\x7d'
  · subst hcloseObject
    exact Option.some.inj h ▸ .lexeme .closeObject .closeObject
  rw [if_neg hcloseObject] at h
  by_cases hcomma : c = ','
  · subst hcomma
    exact Option.some.inj h ▸ .lexeme .comma .comma
  rw [if_neg hcomma] at h
  by_cases hcolon : c = ':'
  · subst hcolon
    exact Option.some.inj h ▸ .lexeme .colon .colon
  rw [if_neg hcolon] at h
  by_cases hnumber : (c.isDigit || c == '-') = true
  · rw [if_pos hnumber] at h
    exact Option.some.inj h ▸ .number
  rw [if_neg hnumber] at h
  by_cases hword : c.isLower = true
  · rw [if_pos hword] at h
    exact Option.some.inj h ▸ .word
  · rw [if_neg hword] at h
    cases h

/-! ## Texts -/

/-- **What a text begins with,** if the lexer comes to its end: white space, or a lexeme. -/
theorem lex_nothing_inv {c : Char} {cs : List Char} {acc ts : List Token}
    (h : lex ⟨.nothing, acc⟩ (c :: cs) = some ts) :
    isSpace c = true ∧ lex ⟨.nothing, acc⟩ cs = some ts ∨
      ∃ x part t rest, c :: cs = part ++ rest ∧ part ≠ [] ∧ Lexeme.IsWritten x part ∧
        x.IsToken t ∧ lex ⟨.nothing, t :: acc⟩ rest = some ts := by
  obtain ⟨l, hstep, h⟩ := lex_cons_inv h
  change Lexer.begin acc c = some l at hstep
  rw [Lexer.begin] at hstep
  cases hbegin : begin? c with
  | none => simp [hbegin] at hstep
  | some next =>
    rw [hbegin] at hstep
    cases begins_of_begin? hbegin with
    | space hspace =>
      obtain rfl := Option.some.inj hstep
      exact Or.inl ⟨hspace, h⟩
    | quote hquote =>
      obtain rfl := Option.some.inj hstep
      subst hquote
      obtain ⟨letters, body, rest, s, rfl, hbody, hs, h⟩ := exists_areWritten h
      have htext : Letter.text? letters = some (String.ofList s) :=
        Option.map_eq_some_iff.mpr ⟨s, hs, rfl⟩
      exact Or.inr ⟨.string letters, '"' :: (body ++ ['"']), _, rest, by simp,
        List.cons_ne_nil _ _, .string hbody, .string htext, h⟩
    | lexeme hx ht =>
      obtain rfl := Option.some.inj hstep
      exact Or.inr ⟨_, [c], _, cs, rfl, List.cons_ne_nil _ _, hx, ht, h⟩
    | number =>
      obtain rfl := Option.some.inj hstep
      obtain ⟨s, part, rest, v, rfl, hs, hv, h⟩ := lex_number_inv h
      exact Or.inr ⟨.scalar s, c :: part, _, rest, rfl, List.cons_ne_nil _ _, .scalar hs,
        .scalar hv, h⟩
    | word =>
      obtain rfl := Option.some.inj hstep
      obtain ⟨s, part, rest, v, rfl, hs, hv, h⟩ := lex_word_inv h
      exact Or.inr ⟨.scalar s, c :: part, _, rest, rfl, List.cons_ne_nil _ _, .scalar hs,
        .scalar hv, h⟩

/-- **The tokens of a text are those of lexemes that it is written in.** -/
theorem exists_isSpelled {cs : List Char} {acc ts : List Token}
    (h : lex ⟨.nothing, acc⟩ cs = some ts) :
    ∃ lexemes us, IsSpelled lexemes cs ∧ AreTokens lexemes us ∧ ts = acc.reverse ++ us := by
  induction hlength : cs.length using Nat.strong_induction_on generalizing acc cs with
  | h n ih =>
    cases cs with
    | nil =>
      obtain rfl := Option.some.inj h
      exact ⟨[], [], .nil, .nil, (List.append_nil _).symm⟩
    | cons c cs =>
      obtain ⟨hspace, h⟩ | ⟨x, part, t, rest, hcs, hne, hx, ht, h⟩ := lex_nothing_inv h
      · have hshorter : cs.length < n := by
          rw [← hlength]
          exact Nat.lt_succ_self _
        obtain ⟨lexemes, us, hspelled, htokens, rfl⟩ := ih _ hshorter h rfl
        exact ⟨lexemes, us, .space hspace hspelled, htokens, rfl⟩
      · have hshorter : rest.length < n := by
          have hpos := List.length_pos_iff.mpr hne
          rw [← hlength, hcs, List.length_append]
          omega
        obtain ⟨lexemes, us, hspelled, htokens, rfl⟩ := ih _ hshorter h rfl
        rw [hcs]
        refine ⟨x :: lexemes, t :: us, .cons hx hspelled, .cons ht htokens, ?_⟩
        rw [List.reverse_cons, List.append_assoc, List.singleton_append]

/-- No two scalars stand side by side. -/
def Separated (lexemes : List Lexeme) : Prop :=
  lexemes.IsChain fun x y => x.isScalar = true → y.isScalar = false

theorem stops_of_isSpace {c : Char} (h : isSpace c = true) (rest : List Char) :
    Stops (c :: rest) := by
  intro d hd
  obtain rfl : c = d := Option.some.inj hd
  simp only [isSpace, Bool.or_eq_true, beq_iff_eq] at h
  rcases h with ((rfl | rfl) | rfl) | rfl <;> decide

/-- What is written after a scalar cannot belong to it. -/
theorem IsSpelled.stops {lexemes : List Lexeme} {cs : List Char} (h : IsSpelled lexemes cs)
    (hhead : ∀ x ∈ lexemes.head?, x.isScalar = false) : Stops cs := by
  cases h with
  | nil => exact fun c hc => nomatch hc
  | space hspace => exact stops_of_isSpace hspace _
  | @cons x lexemes part rest hx hrest =>
    have hscalar := hhead x rfl
    cases hx with
    | scalar => cases hscalar
    | _ =>
      intro c hc
      obtain rfl := Option.some.inj hc
      decide

/-- **A text that is written in lexemes is cut into their tokens.** -/
theorem IsSpelled.lex_eq {lexemes : List Lexeme} {cs : List Char} (h : IsSpelled lexemes cs)
    (hseparated : Separated lexemes) {ts : List Token} (hts : AreTokens lexemes ts)
    (acc : List Token) : lex ⟨.nothing, acc⟩ cs = some (acc.reverse ++ ts) := by
  induction h generalizing ts acc with
  | nil =>
    cases hts
    rw [List.append_nil]
    rfl
  | @space c lexemes cs hspace _ ih =>
    have hstep : (Lexer.mk .nothing acc).step c = some ⟨.nothing, acc⟩ := by
      simp [Lexer.step, Lexer.begin, begin?, hspace]
    rw [lex_cons hstep, ih hseparated hts]
  | @cons x lexemes part rest hx hrest ih =>
    cases hts with
    | cons ht hts =>
      obtain ⟨hhead, htail⟩ := List.isChain_cons.mp hseparated
      have hstops : x.isScalar = true → Stops rest :=
        fun hscalar => hrest.stops fun y hy => hhead y hy hscalar
      rw [lex_lexeme hx ht acc hstops, ih htail hts]
      simp

end EditorBridge.Json
