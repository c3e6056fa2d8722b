import EditorBridge.Answer.Place
import EditorBridge.Answer.Completion
import EditorBridge.Answer.Diagnostic
import EditorBridge.Answer.Scope
import EditorBridge.Proofs.Json.Object
import EditorBridge.Server.Command

/-!
# Reading back what is written of an answer

What the bridge writes of a value is read back as the value, as a JSON value and as a text
(`Json.IsCodec`). For a record this holds whatever fields of other names are put into the object
(`Json.IsRecordCodec`), because a reader of a record sees only the fields that it has a name for
(`Json.SeesOnly`).

The main statement, `payloads_agree`, says this of all that goes between the bridge and the
server. It also says that the arguments of commands, which are put together by hand, are written
as the values are elsewhere, and that a list of scopes is told from a list with a number in front.
-/

namespace EditorBridge

open Text

namespace Json

variable {α : Type} {names : List String} {valid : α → Prop} {encode : α → Json}
  {decode : Json → Option α}

/-! ## Codecs -/

/-- What is written of a value is read back as the value, as a JSON value and as a text. -/
structure IsCodec (valid : α → Prop) (encode : α → Json) (decode : Json → Option α) : Prop where
  decode_encode : ∀ a, valid a → decode (encode a) = some a
  decode_parse : ∀ a, valid a → (parse (encode a).render).bind decode = some a

/-- A record is read back, whatever fields of other names than its own are put into the object. -/
structure IsRecordCodec (names : List String) (valid : α → Prop) (encode : α → Json)
    (decode : Json → Option α) : Prop extends IsCodec valid encode decode where
  decode_extend : ∀ a, valid a → ∀ more, (∀ field ∈ more, field.1 ∉ names) →
    decode ((encode a).extend more) = some a
  decode_parse_extend : ∀ a, valid a → ∀ more, (∀ field ∈ more, field.1 ∉ names) →
    (∀ field ∈ more, IsPlain (maxDepth - 1) field.2) →
    (parse ((encode a).extend more).render).bind decode = some a

/-- What is made of an object depends only on its fields of certain names. -/
def SeesOnly (names : List String) (decode : Json → Option α) : Prop :=
  ∀ fields fields' : List (String × Json),
    (∀ name ∈ names, fields.lookup name = fields'.lookup name) →
    decode (.object fields) = decode (.object fields')

theorem parse_render {v : Json} (h : IsPlain maxDepth v) : parse v.render = some v := by
  rw [parse, toList_render, ofChars?_chars h]

theorem IsCodec.of_isPlain (hread : ∀ a, valid a → decode (encode a) = some a)
    (hplain : ∀ a, valid a → IsPlain maxDepth (encode a)) : IsCodec valid encode decode where
  decode_encode := hread
  decode_parse a ha := by rw [parse_render (hplain a ha), Option.bind_some, hread a ha]

theorem SeesOnly.decode_extend (h : SeesOnly names decode) (fields : List (String × Json))
    {more : List (String × Json)} (hmore : ∀ field ∈ more, field.1 ∉ names) :
    decode ((Json.object fields).extend more) = decode (.object fields) := by
  refine h _ _ fun name hname => lookup_foldl_insertField (fun field hfield heq => ?_) fields
  exact hmore field hfield (heq ▸ hname)

theorem IsRecordCodec.of_isPlain (hread : ∀ a, valid a → decode (encode a) = some a)
    (hplain : ∀ a, valid a → IsPlain maxDepth (encode a)) (hsees : SeesOnly names decode)
    (hobject : ∀ a, ∃ fields, encode a = .object fields) :
    IsRecordCodec names valid encode decode := by
  have hextend : ∀ a, valid a → ∀ more, (∀ field ∈ more, field.1 ∉ names) →
      decode ((encode a).extend more) = some a := by
    intro a ha more hmore
    obtain ⟨fields, hfields⟩ := hobject a
    rw [hfields, hsees.decode_extend fields hmore, ← hfields, hread a ha]
  refine ⟨.of_isPlain hread hplain, hextend, fun a ha more hmore hvalues => ?_⟩
  rw [parse_render ((hplain a ha).extend hvalues), Option.bind_some, hextend a ha more hmore]

/-! ## Fields -/

theorem record?_congr {fields fields' : List (String × Json)}
    (h : ∀ name ∈ names, fields.lookup name = fields'.lookup name) :
    record? names (.object fields) = record? names (.object fields') :=
  congrArg some (List.map_congr_left h)

/-- Fields are in order if their names are among names that are. -/
theorem pairwise_of_names (hnames : names.Pairwise (· < ·)) {fields : List (String × Json)}
    (h : (fields.map Prod.fst).Sublist names) : fields.Pairwise fun a b => a.1 < b.1 :=
  List.pairwise_map.mp (hnames.sublist h)

theorem optionalField_sublist (name : String) (o : Option α) :
    ((optionalField name encode o).map Prod.fst).Sublist [name] := by
  cases o with
  | none => exact List.nil_sublist _
  | some a => exact List.Sublist.refl _

theorem natural?_ofNat {n limit : Nat} (h : n ≤ limit) : (ofNat n).natural? limit = some n := by
  have hrange : 0 ≤ (n : Int) ∧ (n : Int) ≤ limit := by omega
  rw [ofNat, natural?, if_pos hrange, Int.toNat_natCast]

theorem IsPlain.ofNat {n : Nat} (h : n ≤ maxWord64) (depth : Nat) : IsPlain depth (.ofNat n) := by
  refine .number depth ?_
  simp only [Number.IsWord]
  omega

/-- A list is read back if its items are. -/
theorem listOf?_map {as : List α} (h : ∀ a ∈ as, decode (encode a) = some a) :
    (Json.array (as.map encode)).listOf? decode = some as := by
  change (as.map encode).mapM decode = some as
  induction as with
  | nil => rfl
  | cons a as ih =>
    obtain ⟨ha, has⟩ := List.forall_mem_cons.mp h
    rw [List.map_cons, List.mapM_cons, ha, ih has]
    rfl

/-- A field that is left out if it has no value is read back. -/
theorem orElse_nullable?_map {o : Option α} (hread : ∀ a ∈ o, decode (encode a) = some a)
    (hnull : ∀ a, encode a ≠ .null) :
    orElse none (nullable? decode) (o.map encode) = some o := by
  cases o with
  | none => rfl
  | some a =>
    have hvalue : nullable? decode (encode a) = (decode (encode a)).map some := by
      unfold nullable?
      split
      next hencode => exact absurd hencode (hnull a)
      next => rfl
    rw [Option.map_some, orElse, hvalue, hread a rfl, Option.map_some]

end Json

open Json

/-! ## Positions and spans -/

namespace Position

/-- Both numbers have 32 bits. -/
structure IsWord (p : Position) : Prop where
  line_le : p.line ≤ maxWord32
  col_le : p.col ≤ maxWord32

theorem ofJson?_toJson {p : Position} (h : p.IsWord) : ofJson? p.toJson = some p := by
  change (do
    let line ← (Json.ofNat p.line).natural? maxWord32
    let col ← (Json.ofNat p.col).natural? maxWord32
    some (⟨line, col⟩ : Position)) = some p
  rw [natural?_ofNat h.line_le, natural?_ofNat h.col_le]
  rfl

theorem isPlain_toJson {p : Position} (h : p.IsWord) (depth : Nat) :
    IsPlain (depth + 1) p.toJson := by
  have hwide : maxWord32 ≤ maxWord64 := by decide
  have hnames : ["col", "line"].Pairwise (· < ·) := by decide
  refine .object (pairwise_of_names hnames (.refl _))
    (List.forall_mem_cons.mpr ⟨?_, List.forall_mem_singleton.mpr ?_⟩)
  · exact .ofNat (h.col_le.trans hwide) depth
  · exact .ofNat (h.line_le.trans hwide) depth

theorem seesOnly_ofJson? : SeesOnly ["line", "col"] ofJson? := by
  intro fields fields' h
  rw [ofJson?, ofJson?, record?_congr h]

theorem isRecordCodec : IsRecordCodec ["line", "col"] IsWord toJson ofJson? :=
  .of_isPlain (fun _ => ofJson?_toJson) (fun _ h => isPlain_toJson h _) seesOnly_ofJson?
    fun _ => ⟨_, rfl⟩

end Position

namespace Span

structure IsWord (s : Span) : Prop where
  start : s.start.IsWord
  stop : s.stop.IsWord

theorem ofJson?_toJson {s : Span} (h : s.IsWord) : ofJson? s.toJson = some s := by
  change (do
    let start ← Position.ofJson? s.start.toJson
    let stop ← Position.ofJson? s.stop.toJson
    some (⟨start, stop⟩ : Span)) = some s
  rw [Position.ofJson?_toJson h.start, Position.ofJson?_toJson h.stop]
  rfl

theorem isPlain_toJson {s : Span} (h : s.IsWord) (depth : Nat) :
    IsPlain (depth + 2) s.toJson := by
  have hnames : ["end", "start"].Pairwise (· < ·) := by decide
  refine .object (pairwise_of_names hnames (.refl _))
    (List.forall_mem_cons.mpr ⟨?_, List.forall_mem_singleton.mpr ?_⟩)
  · exact Position.isPlain_toJson h.stop depth
  · exact Position.isPlain_toJson h.start depth

theorem seesOnly_ofJson? : SeesOnly ["start", "end"] ofJson? := by
  intro fields fields' h
  rw [ofJson?, ofJson?, record?_congr h]

theorem isRecordCodec : IsRecordCodec ["start", "end"] IsWord toJson ofJson? :=
  .of_isPlain (fun _ => ofJson?_toJson) (fun _ h => isPlain_toJson h _) seesOnly_ofJson?
    fun _ => ⟨_, rfl⟩

end Span

/-! ## Scopes -/

namespace Scope

theorem ofJson?_toJson {s : Scope} (h : s.span.IsWord) : ofJson? s.toJson = some s := by
  change (do
    let start ← Position.ofJson? s.span.start.toJson
    let stop ← Position.ofJson? s.span.stop.toJson
    some (⟨⟨start, stop⟩, s.type⟩ : Scope)) = some s
  rw [Position.ofJson?_toJson h.start, Position.ofJson?_toJson h.stop]
  rfl

theorem isPlain_toJson {s : Scope} (h : s.span.IsWord) (depth : Nat) :
    IsPlain (depth + 2) s.toJson := by
  have hnames : ["end", "start", "type"].Pairwise (· < ·) := by decide
  refine .object (pairwise_of_names hnames (.refl _)) ?_
  simp only [List.forall_mem_cons]
  exact ⟨Position.isPlain_toJson h.stop depth, Position.isPlain_toJson h.start depth,
    .string _ _, List.forall_mem_nil _⟩

theorem seesOnly_ofJson? : SeesOnly ["start", "end", "type"] ofJson? := by
  intro fields fields' h
  rw [ofJson?, ofJson?, h "start" (by simp), h "end" (by simp), h "type" (by simp)]

theorem isRecordCodec :
    IsRecordCodec ["start", "end", "type"] (fun s : Scope => s.span.IsWord) toJson ofJson? :=
  .of_isPlain (fun _ => ofJson?_toJson) (fun _ h => isPlain_toJson h _) seesOnly_ofJson?
    fun _ => ⟨_, rfl⟩

/-- A list of scopes has no number in front, not even if it has two items: a scope is no number. -/
theorem withoutCount_map (scopes : List Scope) :
    withoutCount (.array (scopes.map toJson)) = .array (scopes.map toJson) := by
  match scopes with
  | [] | [_] | [_, _] | _ :: _ :: _ :: _ => rfl

/-- **A list of scopes is read back,** with and without a number in front. -/
theorem listOfJson?_map {scopes : List Scope} (h : ∀ s ∈ scopes, s.span.IsWord) :
    listOfJson? (.array (scopes.map toJson)) = some scopes ∧
      ∀ n, listOfJson? (.array [.number n, .array (scopes.map toJson)]) = some scopes := by
  have hlist : (Json.array (scopes.map toJson)).listOf? ofJson? = some scopes :=
    listOf?_map fun s hs => ofJson?_toJson (h s hs)
  refine ⟨?_, fun n => hlist⟩
  rw [listOfJson?, withoutCount_map, hlist]

end Scope

/-! ## Completions -/

namespace Completion

theorem ofJson?_toJson (c : Completion) : ofJson? c.toJson = some c := rfl

theorem isPlain_toJson (c : Completion) (depth : Nat) : IsPlain (depth + 1) c.toJson := by
  have hnames : ["desc", "info", "kind", "name"].Pairwise (· < ·) := by decide
  refine .object (pairwise_of_names hnames (.refl _)) ?_
  simp only [List.forall_mem_cons]
  exact ⟨.string _ _, .string _ _, .string _ _, .string _ _, List.forall_mem_nil _⟩

theorem seesOnly_ofJson? : SeesOnly ["name", "desc", "info", "kind"] ofJson? := by
  intro fields fields' h
  rw [ofJson?, ofJson?, record?_congr h]

theorem isRecordCodec :
    IsRecordCodec ["name", "desc", "info", "kind"] (fun _ => True) toJson ofJson? :=
  .of_isPlain (fun c _ => ofJson?_toJson c) (fun c _ => isPlain_toJson c _) seesOnly_ofJson?
    fun _ => ⟨_, rfl⟩

end Completion

/-! ## Diagnostics -/

theorem Category.ofJson?_toJson (c : Category) : ofJson? c.toJson = some c := by
  cases c <;> rfl

namespace Diagnostic

/-- The numbers of the places that are known have 32 bits. -/
structure IsWord (d : Diagnostic) : Prop where
  start : ∀ p ∈ d.start, p.IsWord
  stop : ∀ p ∈ d.stop, p.IsWord

theorem ofJson?_toJson {d : Diagnostic} (h : d.IsWord) : ofJson? d.toJson = some d := by
  obtain ⟨category, message, start, stop⟩ := d
  have hread : ∀ {o : Option Position}, (∀ p ∈ o, p.IsWord) →
      orElse none (nullable? Position.ofJson?) (o.map Position.toJson) = some o :=
    fun ho => orElse_nullable?_map (fun p hp => Position.ofJson?_toJson (ho p hp))
      (fun _ h => nomatch h)
  have hfields : (toJson ⟨category, message, start, stop⟩).record?
      ["type", "message", "start", "end"] =
        some [some category.toJson, some (.string message), start.map Position.toJson,
          stop.map Position.toJson] := by
    cases start <;> cases stop <;> rfl
  rw [ofJson?, hfields]
  simp only [required, Option.bind_some, Category.ofJson?_toJson, text?, hread h.start,
    hread h.stop]
  rfl

theorem isPlain_toJson {d : Diagnostic} (h : d.IsWord) (depth : Nat) :
    IsPlain (depth + 2) d.toJson := by
  have hplace : ∀ name, ∀ {o : Option Position}, (∀ p ∈ o, p.IsWord) →
      ∀ field ∈ optionalField name Position.toJson o, IsPlain (depth + 1) field.2 := by
    intro name o ho
    cases o with
    | none => exact List.forall_mem_nil _
    | some p => exact List.forall_mem_singleton.mpr (Position.isPlain_toJson (ho p rfl) depth)
  have hnames : ["end", "message", "start", "type"].Pairwise (· < ·) := by decide
  refine .object (pairwise_of_names hnames ?_) ?_
  · simp only [List.map_append]
    exact (((optionalField_sublist "end" d.stop).append (.refl _)).append
      (optionalField_sublist "start" d.start)).append (.refl _)
  · simp only [List.forall_mem_append, List.forall_mem_singleton]
    exact ⟨⟨⟨hplace _ h.stop, .string _ _⟩, hplace _ h.start⟩, .string _ _⟩

theorem seesOnly_ofJson? : SeesOnly ["type", "message", "start", "end"] ofJson? := by
  intro fields fields' h
  rw [ofJson?, ofJson?, record?_congr h]

theorem isRecordCodec :
    IsRecordCodec ["type", "message", "start", "end"] IsWord toJson ofJson? :=
  .of_isPlain (fun _ => ofJson?_toJson) (fun _ h => isPlain_toJson h _) seesOnly_ofJson?
    fun _ => ⟨_, rfl⟩

end Diagnostic

/-! ## Commands -/

theorem TellKind.isCodec : IsCodec (fun _ => True) TellKind.toJson TellKind.ofJson? := by
  refine .of_isPlain (fun kind _ => ?_) (fun kind _ => ?_)
  · cases kind <;> rfl
  · cases kind <;> exact .string _ _

theorem TellKind.string_name (kind : TellKind) : .string kind.name = kind.toJson := by
  cases kind <;> rfl

theorem BufferId.isCodec : IsCodec (· ≤ maxWord64) BufferId.toJson BufferId.ofJson? :=
  .of_isPlain (fun _ => natural?_ofNat) (fun _ h => .ofNat h _)

/-- **What is written of a value is read back as the value,** for all that goes between the bridge
and the server, as long as numbers fit their 32 or 64 bits. Records are read back with any further
fields in them, the arguments that commands put together are written like the values themselves,
and a list of scopes is read with and without a number in front. -/
theorem payloads_agree :
    IsRecordCodec ["line", "col"] Position.IsWord Position.toJson Position.ofJson? ∧
    IsRecordCodec ["start", "end"] Span.IsWord Span.toJson Span.ofJson? ∧
    IsRecordCodec ["start", "end", "type"] (fun s : Scope => s.span.IsWord)
      Scope.toJson Scope.ofJson? ∧
    IsRecordCodec ["name", "desc", "info", "kind"] (fun _ => True)
      Completion.toJson Completion.ofJson? ∧
    IsRecordCodec ["type", "message", "start", "end"] Diagnostic.IsWord
      Diagnostic.toJson Diagnostic.ofJson? ∧
    IsCodec (fun _ => True) TellKind.toJson TellKind.ofJson? ∧
    IsCodec (· ≤ maxWord64) BufferId.toJson BufferId.ofJson? ∧
    (∀ p, Command.positionArg p = p.toJson) ∧
    (∀ kind : TellKind, .string kind.name = kind.toJson) ∧
    ∀ scopes : List Scope, (∀ s ∈ scopes, s.span.IsWord) →
      Scope.listOfJson? (.array (scopes.map Scope.toJson)) = some scopes ∧
        ∀ n, Scope.listOfJson? (.array [.number n, .array (scopes.map Scope.toJson)]) =
          some scopes :=
  ⟨Position.isRecordCodec, Span.isRecordCodec, Scope.isRecordCodec, Completion.isRecordCodec,
    Diagnostic.isRecordCodec, TellKind.isCodec, BufferId.isCodec, Command.positionArg_eq,
    TellKind.string_name, fun _ => Scope.listOfJson?_map⟩

/-- A diagnostic of no known category with two further fields, and two scopes after a number. -/
theorem payloads_agree_unexpected :
    (Diagnostic.ofJson? ((Diagnostic.toJson ⟨.unknown, "odd", some ⟨1, 0⟩, none⟩).extend
        [("valid", .bool true), ("sub", .array [])]) =
      some ⟨.unknown, "odd", some ⟨1, 0⟩, none⟩) ∧
    (Scope.listOfJson? (.array [.number (.integer 2),
        .array ([⟨⟨⟨1, 4⟩, ⟨1, 5⟩⟩, "int"⟩, ⟨⟨⟨1, 0⟩, ⟨2, 3⟩⟩, "unit"⟩].map Scope.toJson)]) =
      some [⟨⟨⟨1, 4⟩, ⟨1, 5⟩⟩, "int"⟩, ⟨⟨⟨1, 0⟩, ⟨2, 3⟩⟩, "unit"⟩]) := by
  have hword : ∀ line col, line ≤ 2 → col ≤ 5 → (⟨line, col⟩ : Position).IsWord :=
    fun line col hline hcol => ⟨hline.trans (by decide), hcol.trans (by decide)⟩
  obtain ⟨-, -, -, -, hdiagnostic, -, -, -, -, hscopes⟩ := payloads_agree
  constructor
  · refine hdiagnostic.decode_extend _ ⟨fun p hp => ?_, fun p hp => ?_⟩ _ (by decide)
    · exact Option.some.inj hp ▸ hword 1 0 (by decide) (by decide)
    · exact absurd hp (Option.not_mem_none p)
  · refine (hscopes _ (List.forall_mem_cons.mpr ⟨?_, List.forall_mem_singleton.mpr ?_⟩)).2 _
    · exact ⟨hword 1 4 (by decide) (by decide), hword 1 5 (by decide) (by decide)⟩
    · exact ⟨hword 1 0 (by decide) (by decide), hword 2 3 (by decide) (by decide)⟩

end EditorBridge
