import EditorBridge.Proofs.CommandLine.Sending
import EditorBridge.Proofs.Scopes.Walk
import EditorBridge.Proofs.Session.Listing
import EditorBridge.Proofs.Session.Typing

/-!
# Listing scopes outward

The command line can ask for the innermost scope around a cursor and for some more outward. It
walks there step by step, until there are no more scopes (`run_nextScopes`), and so it prints the
first scopes of the server's answer, in their order (`run_ask_enclosing`), up to the first one with
a number that does not fit its word (`endsAfter_ofRecords`).

The main statement, `saturating_walk`, says this together with what walks in a session show. That
the numbers fit has to be asked for: `enclosing_stopped` is about two scopes that cannot be shown.
-/

namespace EditorBridge.CommandLine

open Navigator (shown views)
open Text (maxWord32)
open Transport (entry next)

/-! ## Records -/

theorem ofRecords_map_ok (texts : List String) :
    Printout.ofRecords (texts.map .ok) = .ofText (String.join texts) := by
  induction texts with
  | nil => rfl
  | cons text texts ih =>
    rw [List.map_cons, Printout.ofRecords, ih, String.join_cons]
    rfl

theorem ofRecords_append_error (texts : List String) (overflow : Overflow)
    (rest : List (Except Overflow String)) :
    Printout.ofRecords (texts.map .ok ++ .error overflow :: rest) =
      ⟨String.join texts, some overflow⟩ := by
  induction texts with
  | nil => rfl
  | cons text texts ih =>
    rw [List.map_cons, List.cons_append, Printout.ofRecords, ih, String.join_cons]

/-- A run ends after it has printed some records: all of them, or those before the first one that
overflows. -/
structure EndsAfter (records : List (Except Overflow String)) (verdict : Verdict) : Prop where
  all : ∀ lines, records = lines.map .ok → verdict = .success (String.join lines)
  stopped : ∀ lines overflow rest, records = lines.map .ok ++ .error overflow :: rest →
    verdict = .stopped (String.join lines) overflow

theorem endsAfter_ofRecords (records : List (Except Overflow String)) :
    EndsAfter records (.ofPrintout (.ofRecords records)) where
  all := by
    rintro lines rfl
    rw [ofRecords_map_ok]
    rfl
  stopped := by
    rintro lines overflow rest rfl
    rw [ofRecords_append_error]
    rfl

/-! ## Scopes -/

/-- The line that is written for a scope, if its pattern fits. -/
def scopeLine (scope : Scope) : Except Overflow String :=
  scope.span.pattern.map fun pattern =>
    scope.span.render ++ "\t" ++ scope.type ++ "\t" ++ pattern ++ "\n"

theorem exists_scopeLine_iff {scope : Scope} :
    (∃ line, scopeLine scope = .ok line) ↔ scope.span.Fits := by
  rw [← not_iff_not, ← Span.pattern_eq_error_iff, scopeLine]
  cases scope.span.pattern with
  | error overflow =>
    cases overflow
    exact iff_of_true (fun ⟨_, h⟩ => nomatch h) rfl
  | ok pattern => exact iff_of_false (fun h => h ⟨_, rfl⟩) fun h => nomatch h

theorem map_scope_views (scopes : List Scope) :
    (views scopes).map Listing.scope = scopes.map scopeLine := by
  refine List.ext_getElem? fun i => ?_
  rw [List.getElem?_map, List.getElem?_map, Navigator.getElem?_views]
  by_cases hlt : i < scopes.length
  · rw [Navigator.shown_ofNat hlt, List.getElem?_eq_getElem hlt]
    exact congrArg some (Listing.scope_view i scopes[i])
  · rw [shown, dif_neg (by omega), List.getElem?_eq_none (by omega)]
    rfl

section

variable {σ : Type}

/-- From a scope, so many more are shown outward as there are. -/
theorem run_nextScopes {scopes : List Scope} {i : Nat} (hi : i < scopes.length) (k : Nat)
    (s : Session σ) :
    ((nextScopes k).run { s with navigator := ⟨scopes, i⟩ }).1 =
      .ok (((views scopes).drop (i + 1)).take k) := by
  induction k generalizing i with
  | zero => rfl
  | succ k ih =>
    have hviews := Navigator.getElem?_views scopes (i + 1)
    rw [nextScopes, Exchange.run_bind, Session.run_nextScope hi, ← hviews]
    by_cases hnext : i + 1 < scopes.length
    · have hlt : i + 1 < (views scopes).length := by
        rw [Navigator.length_views]
        exact hnext
      have hrest := ih hnext
      rw [List.getElem?_eq_getElem hlt, List.drop_eq_getElem_cons hlt, List.take_succ_cons]
      simp only
      rw [Exchange.run_bind]
      rcases hrun : (nextScopes k).run
        ({ s with navigator := ⟨scopes, (i + 1 : Nat)⟩ } : Session σ) with ⟨c | rest, s'⟩
      · rw [hrun] at hrest
        cases hrest
      · rw [hrun] at hrest
        rw [← Except.ok.inj hrest]
        rfl
    · have hout : (views scopes).length ≤ i + 1 := by
        rw [Navigator.length_views]
        omega
      rw [List.getElem?_eq_none hout, List.drop_eq_nil_of_le hout, List.take_nil]
      rfl

variable [Transport σ]

/-- **The scopes that are asked for are the first ones of the answer.** -/
theorem run_ask_enclosing {buffer : Buffer} {cursor : Position} {report : SyncReport}
    {s s₁ : Session σ} (hsync : (Session.syncTo buffer cursor).run s = (.ok report, s₁))
    {scopes : List Scope}
    (hscopes : Session.scopesOf (entry s₁.server (Command.typeEnclosing cursor)) = .ok scopes)
    (hne : scopes ≠ []) (config : Config) (expr : Option String) (k : Nat) :
    ((ask config buffer (.enclosing cursor expr k)).run s).1 =
      .ok (.ofRecords ((scopes.take (min (k + 1) scopes.length)).map scopeLine)) := by
  obtain ⟨scope, rest, rfl⟩ := List.exists_cons_of_ne_nil hne
  have hrun := Session.run_typeEnclosing buffer cursor expr s
  rw [Session.run_tracked_of_syncTo hsync] at hrun
  simp only [Session.run_queryScopes_eq, hscopes] at hrun
  have hviews :
      (scope.view 0 :: ((views (scope :: rest)).drop 1).take k).map Listing.scope =
        ((scope :: rest).take (min (k + 1) (scope :: rest).length)).map scopeLine := by
    have hmin : (scope :: rest).take (min (k + 1) (scope :: rest).length) =
        (scope :: rest).take (k + 1) := by
      rw [List.take_eq_take_iff]
      omega
    have hfirst : scope.view 0 :: ((views (scope :: rest)).drop 1).take k =
        (views (scope :: rest)).take (k + 1) := rfl
    rw [hmin, hfirst, List.map_take, map_scope_views, List.map_take]
  have hnext : ((nextScopes k).run (⟨⟨next s₁.server (Command.typeEnclosing cursor), s₁.tracker⟩,
      ⟨scope :: rest, 0⟩⟩ : Session σ)).1 = .ok (((views (scope :: rest)).drop 1).take k) :=
    run_nextScopes (show 0 < (scope :: rest).length by simp) k
      ⟨⟨next s₁.server (Command.typeEnclosing cursor), s₁.tracker⟩, .empty⟩
  rw [ask, Exchange.run_bind, hrun]
  simp only
  rw [Exchange.run_bind]
  rcases hfound : (nextScopes k).run (⟨⟨next s₁.server (Command.typeEnclosing cursor), s₁.tracker⟩,
    ⟨scope :: rest, 0⟩⟩ : Session σ) with ⟨c | found, s'⟩
  · rw [hfound] at hnext
    cases hnext
  · rw [hfound] at hnext
    obtain rfl := Except.ok.inj hnext
    rw [← hviews]
    rfl

end

/-- **Navigation is a saturating walk.** Whatever steps are taken since some scopes were found, the
cursor is where they lead when each of them is counted from one place before the scopes and stops at
both ends, and each step shows the scope at the cursor, if there is one, with its place, its span,
its type and the regions of its span. So one step outward more than there are scopes shows all of
them, the innermost first, and then nothing; and the command line prints the first scopes, one and
so many more as it is asked for.

The regions overflow just if the span starts on the largest line and goes back to another one; the
bridge stops at a step to such a scope, and the cursor is on it. The pattern that is printed
overflows just if the span does not fit. The command line stops there, and has printed the scopes
before. -/
theorem saturating_walk {σ ω : Type} [Host ω] (scopes : List Scope) :
    (∀ (steps : List Step) (s : Session σ),
      (Session.walk steps).run { s with navigator := .ofScopes scopes } =
        (.ok ((List.range steps.length).map fun j =>
            shown scopes (Step.place scopes.length (steps.take (j + 1)))),
          { s with navigator := ⟨scopes, Step.place scopes.length steps⟩ })) ∧
    (∀ s : Session σ,
      ((Session.walk (List.replicate (scopes.length + 1) .outward)).run
        { s with navigator := .ofScopes scopes }).1 = .ok ((views scopes).map some ++ [none])) ∧
    (∀ scope : Scope,
      (scope.span.regions = .error .addition ↔
        scope.span.start.line ≠ scope.span.stop.line ∧ maxWord32 ≤ scope.span.start.line) ∧
      ((∃ line, scopeLine scope = .ok line) ↔ scope.span.Fits)) ∧
    ∀ (s : Surroundings) (words : List String) (i : Invocation) (config : Config)
      (buffer : Buffer) (host : ω) (cursor : Position) (expr : Option String) (k : Nat)
      (report : SyncReport) (session : RunSession ω),
      Understood s words i config buffer → i.query = .enclosing cursor expr k →
      (Session.syncTo buffer cursor).run (prepare s config buffer.name (opened s config host)).2 =
        (.ok report, session) →
      Session.scopesOf (entry session.server (Command.typeEnclosing cursor)) = .ok scopes →
      scopes ≠ [] →
      EndsAfter ((scopes.take (min (k + 1) scopes.length)).map scopeLine)
        (run s words host).1.verdict := by
  refine ⟨Session.run_walk scopes, Session.run_walk_outward scopes,
    fun scope => ⟨Span.regions_eq_error_iff, exists_scopeLine_iff⟩, ?_⟩
  intro s words i config buffer host cursor expr k report session hwords hquery hsync hscopes hne
  rw [hwords.verdict_run host, hquery, run_ask_enclosing hsync hscopes hne]
  exact endsAfter_ofRecords _

/-! A cursor at the beginning of an empty file, and a server that knows of scopes around it. -/

def inner : Scope := ⟨⟨⟨1, 0⟩, ⟨1, 2⟩⟩, "int"⟩

def outer : Scope := ⟨⟨⟨1, 0⟩, ⟨2, 4⟩⟩, "unit"⟩

def listed (scopes : List Scope) : Outcome := .accepted (.array (scopes.map Scope.toJson))

/-- A line with a command whose name begins like `type`. -/
def asksType (line : String) : Bool := line.toList.take 4 == ['[', '"', 't', 'y']

/-- The server is at the start after all other commands. -/
def knowsScopes (scopes : List Scope) (line : String) : Option (List UInt8) :=
  some (Frame.line (if asksType line then listed scopes
    else Outcome.accepted (Position.lineStart 1).toJson).toFrame)

/-- Whatever is handed over has another name. -/
theorem asksType_line {c : Command} (h : c.IsHandover) : asksType c.line = false := by
  have hline : ∃ rest, c.line.toList = '[' :: (Json.quoted c.name ++ rest) := by
    refine ⟨Json.itemChars false c.args ++ [']'] ++ ['\n'], ?_⟩
    rw [Command.toList_line, Command.toFrame, Json.chars, Json.itemChars, Json.chars]
    simp [Json.emitComma]
  obtain ⟨rest, hline⟩ := hline
  have hother : ∀ name ∈ ["project", "reset", "tell", "seek"],
      (('[' :: (Json.quoted name ++ rest)).take 4 == ['[', '"', 't', 'y']) = false := by
    simp only [List.forall_mem_cons]
    exact ⟨rfl, rfl, rfl, rfl, List.forall_mem_nil _⟩
  rw [asksType, hline]
  apply hother
  cases h with
  | load path => exact List.mem_cons_self
  | reset name =>
    cases name <;> exact show "reset" ∈ ["project", "reset", "tell", "seek"] by decide
  | tell kind lines => exact show "tell" ∈ ["project", "reset", "tell", "seek"] by decide
  | seek p => exact show "seek" ∈ ["project", "reset", "tell", "seek"] by decide

def enclosing : Invocation where
  config := none
  flags := []
  ignoreWarnings := false
  file := "main.ml"
  query := .enclosing ⟨1, 0⟩ none 5

theorem understood_enclosing :
    Understood sources ["main.ml", "enclosing", "1:0", "--outward", "5"] enclosing .default
      (.ofText 1 "main.ml" "") where
  parsed := eq_ok_of_toOption (by decide +kernel)
  configured := eq_ok_of_toOption (by decide +kernel)
  readable := by
    have htext : sources.readText? (Path.ofString enclosing.file) = some "" := by decide +kernel
    rw [readBuffer, htext]
    rfl
  searched := ⟨some ⟨true, ["src", ".merlin"]⟩, by decide +kernel⟩

section

variable {scope : Scope} {scopes : List Scope}

theorem obliges_knowsScopes (scopes : List Scope) : Obliges
    fun (host : AnsweringHost (fun _ _ => none) (knowsScopes scopes)) id =>
      host.alive = some id := by
  have hstart : (Position.lineStart 1).IsWord := ⟨by decide, by decide⟩
  refine obliges_of_position hstart (by decide +kernel) fun c hc => ?_
  rw [knowsScopes, asksType_line hc]
  rfl

theorem fits_listed (hword : ∀ s ∈ scopes, s.span.IsWord)
    (hshort : (Frame.line (listed scopes).toFrame).length ≤ maxLineBytes) :
    Frame.Fits (listed scopes).toFrame := by
  refine ⟨rfl, .array ?_, hshort⟩
  refine List.forall_mem_cons.mpr ⟨.string _ _, List.forall_mem_singleton.mpr (.array ?_)⟩
  rw [List.forall_mem_map]
  exact fun s hs => Scope.isPlain_toJson (hword s hs) _

theorem answerTo_knowsScopes (hfits : Frame.Fits (listed scopes).toFrame) :
    answerTo (knowsScopes scopes) (Command.typeEnclosing ⟨1, 0⟩) = .ok (listed scopes) := by
  have hasks : asksType (Command.typeEnclosing ⟨1, 0⟩).line = true := by decide +kernel
  have hreply : knowsScopes scopes (Command.typeEnclosing ⟨1, 0⟩).line =
      some (Frame.line (listed scopes).toFrame ++ []) := by
    rw [List.append_nil, knowsScopes, if_pos hasks]
  rw [answerTo_of_some hreply, Frame.readOutcome_line hfits]

/-- The sync succeeds, and then the server lists its scopes. -/
theorem exists_listed (hword : ∀ s ∈ scope :: scopes, s.span.IsWord)
    (hshort : (Frame.line (listed (scope :: scopes)).toFrame).length ≤ maxLineBytes) :
    ∃ (report : SyncReport)
      (session : RunSession (AnsweringHost (fun _ _ => none) (knowsScopes (scope :: scopes)))),
      (Session.syncTo (.ofText 1 "main.ml" "") ⟨1, 0⟩).run
        (prepare sources .default "main.ml" (opened sources .default ⟨0, none⟩)).2 =
          (.ok report, session) ∧
      Session.scopesOf (entry session.server (Command.typeEnclosing ⟨1, 0⟩)) =
        .ok (scope :: scopes) := by
  have hserver := obliges_knowsScopes (scope :: scopes)
  have hfits := fits_listed hword hshort
  have honeLine : ∀ line bytes, knowsScopes (scope :: scopes) line = some bytes →
      Frame.lineFeed ∉ bytes.dropLast := by
    intro line bytes h
    rw [← Option.some.inj h, Frame.line_eq, List.dropLast_concat]
    exact Frame.lineFeed_notMem_render _
  obtain ⟨es, server, -, -, hready, -, hprepared⟩ := prepare_obliged hserver sources .default
    "main.ml" (⟨0, none⟩ : AnsweringHost (fun _ _ => none) (knowsScopes (scope :: scopes)))
  obtain ⟨fs, report, t, -, -, hready, -, -, -, hsync⟩ :=
    syncTo_obliged hserver (.ofText 1 "main.ml" "") hready
  have hanswer : (entry t.server (Command.typeEnclosing ⟨1, 0⟩)).answer =
      .ok (listed (scope :: scopes)) := by
    rw [← answerTo_knowsScopes hfits]
    exact (hready.call (AnsweringHost.answersBy honeLine) (.typeEnclosing ⟨1, 0⟩)).1
  refine ⟨report, ⟨t, .empty⟩, ?_, Session.scopesOf_eq_cons_iff.mpr
    ⟨_, ?_, (Scope.listOfJson?_map hword).1⟩⟩
  · have htarget :
        Position.lineStart (max (Buffer.ofText 1 "main.ml" "").lineCount 1) = ⟨1, 0⟩ := by
      decide
    rw [htarget] at hsync
    rw [hprepared, Session.run_syncTo]
    simp only [hsync, ite_self]
  · rw [Entry.payload, Entry.reading, hanswer]
    rfl

end

/-- Five more scopes are asked for, and there is one. -/
theorem saturating_walk_knowsScopes :
    (run sources ["main.ml", "enclosing", "1:0", "--outward", "5"]
        (⟨0, none⟩ : AnsweringHost (fun _ _ => none) (knowsScopes [inner, outer]))).1.verdict =
      .success ("1:0-1:2\tint\t\\%>0l\\%<2l\\%<3c\n" ++
        "1:0-2:4\tunit\t\\%>0l\\%<2l\\|\\%>1l\\%<3l\\%<5c\n") := by
  have hword : ∀ s ∈ [inner, outer], s.span.IsWord := by
    refine List.forall_mem_cons.mpr ⟨⟨⟨?_, ?_⟩, ?_, ?_⟩,
      List.forall_mem_singleton.mpr ⟨⟨?_, ?_⟩, ?_, ?_⟩⟩ <;> decide
  obtain ⟨report, session, hsync, hscopes⟩ := exists_listed hword (by decide +kernel)
  have hends := (saturating_walk (σ := Unit) [inner, outer]).2.2.2 sources _ enclosing .default
    (.ofText 1 "main.ml" "")
    (⟨0, none⟩ : AnsweringHost (fun _ _ => none) (knowsScopes [inner, outer])) ⟨1, 0⟩ none 5
    report session understood_enclosing rfl hsync hscopes (List.cons_ne_nil _ _)
  have hlines : ([inner, outer].take (min (5 + 1) [inner, outer].length)).map scopeLine =
      ["1:0-1:2\tint\t\\%>0l\\%<2l\\%<3c\n",
        "1:0-2:4\tunit\t\\%>0l\\%<2l\\|\\%>1l\\%<3l\\%<5c\n"].map .ok := by
    decide +kernel
  rw [hends.all _ hlines]
  rfl

/-- A scope up to the largest column of its line. -/
def toLastColumn : Scope := ⟨⟨⟨1, 0⟩, ⟨1, 4294967295⟩⟩, "int"⟩

/-- A scope that goes back from the largest line. -/
def fromLastLine : Scope := ⟨⟨⟨4294967295, 0⟩, ⟨1, 0⟩⟩, "int"⟩

/-- Where a number does not fit its word nothing is shown: a step to a scope that goes back from the
largest line has no regions, and a run that should print a scope up to the largest column is stopped
before it has printed anything. -/
theorem enclosing_stopped :
    (Session.nextScope.run (⟨⟨(), .initial⟩, .ofScopes [fromLastLine]⟩ : Session Unit)).1 =
      .ok (some ⟨0, fromLastLine, .error .addition⟩) ∧
    (run sources ["main.ml", "enclosing", "1:0", "--outward", "5"]
        (⟨0, none⟩ : AnsweringHost (fun _ _ => none) (knowsScopes [toLastColumn]))).1.verdict =
      .stopped "" .addition := by
  have hword : ∀ s ∈ [toLastColumn], s.span.IsWord := by
    refine List.forall_mem_singleton.mpr ⟨⟨?_, ?_⟩, ?_, ?_⟩ <;> decide
  obtain ⟨report, session, hsync, hscopes⟩ := exists_listed hword (by decide +kernel)
  have hline : scopeLine toLastColumn = .error .addition := by decide +kernel
  have hname : (Buffer.ofText 1 "main.ml" "").name = "main.ml" := by rfl
  have hquery : enclosing.query = .enclosing ⟨1, 0⟩ none 5 := by rfl
  refine ⟨by rfl, ?_⟩
  rw [understood_enclosing.verdict_run, hquery, hname,
    run_ask_enclosing hsync hscopes (List.cons_ne_nil _ _)]
  have hrecords : ([toLastColumn].take (min (5 + 1) [toLastColumn].length)).map scopeLine =
      [.error .addition] := congrArg (fun r => [r]) hline
  rw [hrecords]
  rfl

end EditorBridge.CommandLine
