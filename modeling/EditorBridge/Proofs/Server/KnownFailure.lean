import EditorBridge.Server.Error
import Mathlib.Data.List.Infix

/-!
# Recognising a package that is not known

The server reports an unknown package by a text with two quoted parts, the name and the reason, and
there may be other text around it. The quoted parts are read as they stand, whatever quotation
marks, commas and parentheses they hold (`quoted?_append`), and the text before them is passed over
(`package?_append`).

The other two signatures are looked for first, however, and in the whole text. They hold none of the
signs that the quoted parts are set off by, so that they occur in the text just if they occur in one
of its parts (`infix_append_cons_iff`, `occursIn_packageText`). Hence the main statement,
`classify_packageText`: the package is recognised unless its name or the reason mentions one of the
other failures.
-/

namespace EditorBridge

namespace Text

theorem occursIn_eq_true_iff {pattern text : List Char} :
    occursIn pattern text = true ↔ pattern <:+: text := by
  induction text with
  | nil => simp [occursIn]
  | cons c cs ih =>
    rw [occursIn, Bool.or_eq_true, List.isPrefixOf_iff_prefix, ih, List.infix_cons_iff]

theorem after?_append (beginning rest : List Char) :
    after? beginning (beginning ++ rest) = some rest := by
  have hbegins : beginning.isPrefixOf (beginning ++ rest) = true :=
    List.isPrefixOf_iff_prefix.mpr (List.prefix_append beginning rest)
  rw [after?, if_pos hbegins, List.drop_left]

theorem after?_eq_none {beginning text : List Char} (h : ¬ beginning <+: text) :
    after? beginning text = none := by
  rw [after?, if_neg fun hbegins => h (List.isPrefixOf_iff_prefix.mp hbegins)]

section

variable {pattern xs ys : List Char} {c : Char}

/-- A pattern does not reach over a character that it does not hold. -/
theorem prefix_append_cons_iff (hc : c ∉ pattern) :
    pattern <+: xs ++ c :: ys ↔ pattern <+: xs := by
  constructor
  · intro h
    have hconcat : xs ++ [c] <+: xs ++ c :: ys := ⟨ys, (List.append_cons xs c ys).symm⟩
    rcases List.prefix_or_prefix_of_prefix h hconcat with hshort | hlong
    · rcases List.prefix_concat_iff.mp hshort with rfl | hxs
      · exact absurd (List.mem_concat_self) hc
      · exact hxs
    · exact absurd (hlong.subset List.mem_concat_self) hc
  · intro h
    exact h.trans (List.prefix_append xs _)

theorem infix_append_cons_iff (hc : c ∉ pattern) :
    pattern <:+: xs ++ c :: ys ↔ pattern <:+: xs ∨ pattern <:+: ys := by
  induction xs with
  | nil =>
    have hhere : pattern <+: [] ++ c :: ys ↔ pattern <+: [] := prefix_append_cons_iff hc
    rw [List.nil_append, List.prefix_nil] at hhere
    rw [List.nil_append, List.infix_cons_iff, List.infix_nil, hhere]
  | cons x xs ih =>
    have hhere : pattern <+: x :: xs ++ c :: ys ↔ pattern <+: x :: xs := prefix_append_cons_iff hc
    rw [List.cons_append] at hhere ⊢
    rw [List.infix_cons_iff, ih, hhere, List.infix_cons_iff, or_assoc]

/-- A pattern that holds its first character only once does not reach into its next occurrence. -/
theorem prefix_of_prefix_append (hc : c ∉ pattern) (hne : xs ≠ [])
    (h : c :: pattern <+: xs ++ c :: ys) : c :: pattern <+: xs := by
  cases xs with
  | nil => exact absurd rfl hne
  | cons x xs =>
    obtain ⟨hx, hrest⟩ := List.cons_prefix_cons.mp h
    exact List.cons_prefix_cons.mpr ⟨hx, (prefix_append_cons_iff hc).mp hrest⟩

end

end Text

namespace KnownFailure

open Text

/-- A text that can stand between quotation marks: a backslash stands before every quotation mark
and every backslash of it, and before no line feed. -/
inductive IsQuoted : List Char → Prop
  | nil : IsQuoted []
  | plain {c : Char} {cs : List Char} : c ≠ '"' → c ≠ '\\' → IsQuoted cs → IsQuoted (c :: cs)
  | escaped {c : Char} {cs : List Char} : c ≠ '\n' → IsQuoted cs → IsQuoted ('\\' :: c :: cs)

/-- Puts a backslash before every quotation mark and every backslash. -/
def escape (text : List Char) : List Char :=
  text.flatMap fun c => if c = '"' ∨ c = '\\' then ['\\', c] else [c]

/-- Any text can be written between quotation marks. -/
theorem isQuoted_escape (text : List Char) : IsQuoted (escape text) := by
  induction text with
  | nil => exact .nil
  | cons c cs ih =>
    rw [escape, List.flatMap_cons]
    split
    · rename_i h
      refine .escaped ?_ ih
      rcases h with rfl | rfl <;> decide
    · rename_i h
      obtain ⟨hquote, hbackslash⟩ := not_or.mp h
      exact .plain hquote hbackslash ih

/-- **A quoted text is read as it stands.** -/
theorem quoted?_append {text : List Char} (h : IsQuoted text) (rest : List Char) :
    quoted? (text ++ '"' :: rest) = some (text, rest) := by
  induction h with
  | nil => rfl
  | @plain c cs hquote hbackslash _ ih =>
    rw [List.cons_append, quoted?, ih]
    · rfl
    · exact hquote
    · exact fun _ _ hc _ => hbackslash hc
    · exact fun hc _ => hbackslash hc
  | @escaped c cs hc _ ih =>
    rw [List.cons_append, List.cons_append, quoted?, if_neg hc, ih]
    rfl

/-- The text of an unknown package: its name and the reason, each between quotation marks. -/
def packageText (name reason : String) : String :=
  "Fl_package_base.No_such_package(\"" ++ name ++ "\", \"" ++ reason ++ "\")"

/-- The opening of the text, without its first character and without the quotation mark. -/
def packageStem : List Char := "l_package_base.No_such_package(".toList

theorem packageOpening_eq : packageOpening = 'F' :: (packageStem ++ ['"']) := by decide

theorem packageSeparator_eq : packageSeparator = [',', ' '] ++ ['"'] := by decide

theorem toList_packageText (name reason : String) :
    (packageText name reason).toList =
      packageOpening ++ (name.toList ++ '"' :: (packageSeparator ++
        (reason.toList ++ '"' :: [')']))) := by
  have hparts (opening middle ending : String) :
      (opening ++ name ++ middle ++ reason ++ ending).toList =
        opening.toList ++ (name.toList ++ (middle.toList ++ (reason.toList ++ ending.toList))) := by
    simp only [String.toList_append, List.append_assoc]
  exact hparts "Fl_package_base.No_such_package(\"" "\", \"" "\")"

/-! ## The quoted parts are read as they stand -/

theorem packageAt?_packageText {name reason : String} (hname : IsQuoted name.toList)
    (hreason : IsQuoted reason.toList) (after : List Char) :
    packageAt? ((packageText name reason).toList ++ after) =
      some (.unknownPackage name reason) := by
  have hend : after? [')'] (')' :: after) = some after := after?_append [')'] after
  rw [toList_packageText, packageAt?]
  simp only [List.append_assoc, List.cons_append, List.nil_append, after?_append,
    quoted?_append hname, quoted?_append hreason, hend, Option.bind_eq_bind, Option.bind_some,
    String.ofList_toList]

theorem package?_of_packageAt? {text : List Char} {failure : KnownFailure}
    (h : packageAt? text = some failure) : package? text = some failure := by
  cases text with
  | nil => cases h
  | cons c cs => rw [package?, h]

/-- Every text of an unknown package holds this name. -/
def packageName : List Char := "No_such_package".toList

/-- **Text without the name of the failure is passed over.** -/
theorem package?_append {before : List Char} (h : ¬ packageName <:+: before) (rest : List Char) :
    package? (before ++ (packageOpening ++ rest)) = package? (packageOpening ++ rest) := by
  induction before with
  | nil => rfl
  | cons c cs ih =>
    have hcs : ¬ packageName <:+: cs := fun hmem => h (List.infix_cons hmem)
    have hhere : ¬ packageOpening <+: c :: cs ++ (packageOpening ++ rest) := by
      intro hopens
      have honce : 'F' ∉ packageStem ++ ['"'] := by decide
      have hheld : packageName <:+: packageOpening := by decide
      rw [packageOpening_eq, List.cons_append] at hopens
      have hbefore := prefix_of_prefix_append honce (List.cons_ne_nil c cs) hopens
      rw [← packageOpening_eq] at hbefore
      exact h (hheld.trans hbefore.isInfix)
    have hnone : packageAt? (c :: cs ++ (packageOpening ++ rest)) = none := by
      rw [packageAt?, after?_eq_none hhere]
      rfl
    rw [List.cons_append] at hnone ⊢
    rw [package?, hnone]
    exact ih hcs

/-- The text is read wherever it stands. -/
theorem package?_packageText {before name reason : String} (hname : IsQuoted name.toList)
    (hreason : IsQuoted reason.toList) (hbefore : ¬ packageName <:+: before.toList)
    (after : String) :
    package? (before ++ packageText name reason ++ after).toList =
      some (.unknownPackage name reason) := by
  have hread := package?_of_packageAt? (packageAt?_packageText hname hreason after.toList)
  rw [toList_packageText, List.append_assoc] at hread
  rw [String.toList_append, String.toList_append, List.append_assoc, toList_packageText,
    List.append_assoc, package?_append hbefore, hread]

/-! ## The other failures are looked for first -/

/-- A failure is mentioned in the name of a package or in the reason. -/
def IsMentioned (signature : List Char) (name reason : String) : Prop :=
  signature <:+: name.toList ∨ signature <:+: reason.toList

instance (signature : List Char) (name reason : String) :
    Decidable (IsMentioned signature name reason) :=
  inferInstanceAs (Decidable (_ ∨ _))

/-- The signatures hold no sign that sets off a quoted part, and do not occur in the text between
the signs. -/
theorem signature_apart : ∀ signature ∈ [parseSignature, notFoundSignature],
    ('F' ∉ signature ∧ '"' ∉ signature ∧ ')' ∉ signature) ∧
      ¬ signature <:+: packageStem ∧ ¬ signature <:+: [',', ' '] ∧ ¬ signature <:+: [] := by
  decide

/-- **A signature occurs in the text just if a part of it mentions the failure.** -/
theorem occursIn_packageText {signature : List Char}
    (hsignature : signature ∈ [parseSignature, notFoundSignature]) {before after : String}
    (hbefore : ¬ signature <:+: before.toList) (hafter : ¬ signature <:+: after.toList)
    (name reason : String) :
    occursIn signature (before ++ packageText name reason ++ after).toList = true ↔
      IsMentioned signature name reason := by
  obtain ⟨⟨hopening, hquote, hend⟩, hstem, hcomma, hempty⟩ := signature_apart signature hsignature
  have hparts : (before ++ packageText name reason ++ after).toList =
      before.toList ++ 'F' :: (packageStem ++ '"' :: (name.toList ++ '"' :: ([',', ' '] ++
        '"' :: (reason.toList ++ '"' :: ([] ++ ')' :: after.toList))))) := by
    rw [String.toList_append, String.toList_append, toList_packageText, packageOpening_eq,
      packageSeparator_eq]
    simp only [List.append_assoc, List.cons_append, List.nil_append]
  rw [occursIn_eq_true_iff, hparts, infix_append_cons_iff hopening,
    infix_append_cons_iff hquote, infix_append_cons_iff hquote, infix_append_cons_iff hquote,
    infix_append_cons_iff hquote, infix_append_cons_iff hend, IsMentioned]
  simp only [hbefore, hafter, hstem, hcomma, hempty, false_or, or_false]

/-! ## What is recognised, and what the user reads -/

/-- What the text around the parts must not hold. -/
def signatures : List (List Char) := [parseSignature, notFoundSignature, packageName]

theorem classify_eq {before name reason after : String} (hname : IsQuoted name.toList)
    (hreason : IsQuoted reason.toList)
    (hbefore : ∀ signature ∈ signatures, ¬ signature <:+: before.toList)
    (hafter : ∀ signature ∈ signatures, ¬ signature <:+: after.toList) :
    classify (before ++ packageText name reason ++ after) =
      some (if IsMentioned parseSignature name reason then .cannotParse
        else if IsMentioned notFoundSignature name reason then .notFound
        else .unknownPackage name reason) := by
  have hparse : parseSignature ∈ signatures := List.mem_cons_self
  have hnotFound : notFoundSignature ∈ signatures := List.mem_cons_of_mem _ List.mem_cons_self
  have hpackage : packageName ∈ signatures :=
    List.mem_cons_of_mem _ (List.mem_cons_of_mem _ List.mem_cons_self)
  rw [classify, package?_packageText hname hreason (hbefore packageName hpackage)]
  simp only [
    occursIn_packageText List.mem_cons_self (hbefore _ hparse) (hafter _ hparse),
    occursIn_packageText (List.mem_cons_of_mem _ List.mem_cons_self) (hbefore _ hnotFound)
      (hafter _ hnotFound)]
  split_ifs <;> rfl

theorem describe_of_classify {kind : RejectionKind} (hkind : kind ≠ .error) {text : String}
    {failure : KnownFailure} (h : classify text = some failure) :
    Rejection.describe ⟨kind, .string text⟩ = failure.message := by
  cases kind with
  | error => exact absurd rfl hkind
  | failure | exception =>
    simp only [Rejection.describe, Rejection.text, Json.asText, h, Option.elim_some]

theorem message_unknownPackage (name reason : String) :
    (unknownPackage name reason).message =
      "error: Unknown package '" ++ name ++ "'" ++
        if reason = "" then "" else " (" ++ reason ++ ")" := by
  rw [message]
  split
  · exact String.append_empty.symm
  · simp only [String.append_assoc]

/-- **A package that is not known is recognised unless its name or the reason mentions another
failure.** It is given with both parts as they stand between the quotation marks, and the user
reads the name, and the reason if there is one. -/
theorem classify_packageText {before name reason after : String} (hname : IsQuoted name.toList)
    (hreason : IsQuoted reason.toList)
    (hbefore : ∀ signature ∈ signatures, ¬ signature <:+: before.toList)
    (hafter : ∀ signature ∈ signatures, ¬ signature <:+: after.toList) :
    classify (before ++ packageText name reason ++ after) =
        some (if IsMentioned parseSignature name reason then .cannotParse
          else if IsMentioned notFoundSignature name reason then .notFound
          else .unknownPackage name reason) ∧
      ∀ kind ≠ RejectionKind.error,
        Rejection.describe ⟨kind, .string (before ++ packageText name reason ++ after)⟩ =
          if IsMentioned parseSignature name reason then "error: Cannot parse"
          else if IsMentioned notFoundSignature name reason then "error: Not found"
          else "error: Unknown package '" ++ name ++ "'" ++
            if reason = "" then "" else " (" ++ reason ++ ")" := by
  have hclassify := classify_eq hname hreason hbefore hafter
  refine ⟨hclassify, fun kind hkind => ?_⟩
  rw [describe_of_classify hkind hclassify, apply_ite message, apply_ite message,
    message_unknownPackage, message, message]

/-- The quoted parts may hold quotation marks, commas, parentheses and the failure's own name. -/
theorem classify_packageText_quoted :
    classify ("exception " ++
        packageText "a\\\"b" "\\\", \\\") No_such_package(\\\\" ++ ".") =
      some (.unknownPackage "a\\\"b" "\\\", \\\") No_such_package(\\\\") := by
  have hname : IsQuoted "a\\\"b".toList := isQuoted_escape ['a', '"', 'b']
  have hreason : IsQuoted "\\\", \\\") No_such_package(\\\\".toList :=
    isQuoted_escape "\", \") No_such_package(\\".toList
  have hbefore : ∀ signature ∈ signatures, ¬ signature <:+: "exception ".toList := by decide
  have hafter : ∀ signature ∈ signatures, ¬ signature <:+: ".".toList := by decide
  obtain ⟨hclassify, -⟩ := classify_packageText hname hreason hbefore hafter
  exact hclassify

/-- The name of a package is searched for the other failures as well. -/
theorem classify_packageText_notFound :
    IsQuoted "Not_found".toList ∧ IsQuoted "".toList ∧
      classify (packageText "Not_found" "") = some .notFound ∧
      Rejection.describe ⟨.exception, .string (packageText "Not_found" "")⟩ =
        "error: Not found" := by
  have hname : IsQuoted "Not_found".toList := isQuoted_escape "Not_found".toList
  have hclassify : classify (packageText "Not_found" "") = some .notFound := by decide
  exact ⟨hname, .nil, hclassify, describe_of_classify (by decide) hclassify⟩

end KnownFailure

end EditorBridge
