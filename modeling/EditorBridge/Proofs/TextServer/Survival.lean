import EditorBridge.Proofs.Session.Run
import EditorBridge.Proofs.TextServer.World

/-!
# What a surviving mark says of the text

A mark says how far the server's copy is known. The operations that do not sync a buffer reach the
server without asking what is known: each of them has to leave the text alone or forget the mark.

All of them do but one (`Operation.spares_perform`): a `tell` keeps the mark. The main statement,
`mark_survives`, says what this means for the text before the place that the mark confirms. It stays
after every operation but a tell, and after a tell that was answered it stays exactly if the tell
has put the text there that was there before, which it surely has if the cursor was not before the
place.
-/

namespace EditorBridge

open Text

/-- Whoever carries the command out has the same text as before. -/
def Command.SparesText (c : Command) : Prop :=
  ∀ n p, ((Request.ofCommand c).obey n p).text = p.text

namespace TextServer

open Transport (next entry)

/-- A command that spares the text is obeyed or not, and the text is there in both cases. -/
theorem text_next {s : TextServer} {command : Command} (h : command.SparesText)
    (hsteady : (entry s command).after = (entry s command).before) :
    (next s command).process.text = s.process.text := by
  rw [← carrier_of_steady hsteady]
  rcases s.next_cases command with ⟨n, _, -, hn, -⟩ | ⟨-, hsame | ⟨n, hn⟩⟩
  · rw [hn, h]
  · rw [hsame]
  · rw [hn, h]

theorem text_of_talk {s s' : TextServer} {es : List Entry} (h : Talk s es s')
    (hes : ∀ e ∈ es, e.command.SparesText) (hsteady : ∀ e ∈ es, e.after = e.before) :
    s'.process.text = s.process.text := by
  induction h with
  | nil s => rfl
  | @cons s s' command es _ ih =>
    rw [ih (fun e he => hes e (List.mem_cons_of_mem _ he))
      (fun e he => hsteady e (List.mem_cons_of_mem _ he))]
    exact text_next (hes _ List.mem_cons_self) (hsteady _ List.mem_cons_self)

end TextServer

namespace Session

open Transport (next entry)

variable {σ α β : Type} [Transport σ]

/-! ## Operations that spare the text -/

/-- The mark is forgotten, or nothing has been sent that touches the text. -/
def Spares (s s' : Session σ) : Prop :=
  s'.tracker.mark = none ∨ s'.tracker = s.tracker ∧
    ∃ es, Talk s.server es s'.server ∧ ∀ e ∈ es, e.command.SparesText

theorem spares_request (s : Session σ) {command : Command} (decode : Json → Option α)
    (h : command.SparesText) : Spares s ((onServer (request command decode)).run s).2 := by
  rw [onServer, onTracked, Exchange.run_zoom, Sync.onServer, Exchange.run_zoom, run_request]
  exact Or.inr ⟨rfl, _, Talk.single s.server command, List.forall_mem_singleton.mpr h⟩

theorem spares_seek (s : Session σ) {command : Command} (decode : Json → Option α)
    (h : Request.ofCommand command = .seek) :
    Spares s ((onServer (request command decode)).run s).2 := by
  refine spares_request s decode fun n p => ?_
  rw [h]
  exact TextProcess.text_moveTo p n

theorem spares_other (s : Session σ) {command : Command} (decode : Json → Option α)
    (h : Request.ofCommand command = .other) :
    Spares s ((onServer (request command decode)).run s).2 := by
  refine spares_request s decode fun n p => ?_
  rw [h]
  rfl

theorem spares_loadProject (isFile : Path → Bool) (dir : Path) (depth : Nat) (s : Session σ) :
    Spares s ((loadProject isFile dir depth).run s).2 := by
  obtain ⟨es, htalk, hnone | ⟨htracker, hes⟩⟩ := loadProject_cases isFile dir depth s
  · exact Or.inl hnone
  · refine Or.inr ⟨htracker, es, htalk, fun e he n p => ?_⟩
    obtain ⟨path, hcommand⟩ := hes e he
    rw [hcommand, Request.ofCommand_loadProject]
    rfl

/-- **An operation that does not sync a buffer spares the text,** unless it is a tell. -/
theorem Operation.spares_perform {op : Operation} (hop : op.buffer? = none)
    (htell : ∀ kind lines, op ≠ .tell kind lines) (s : Session σ) : Spares s (op.perform s) := by
  cases op with
  | refresh => exact spares_other s _ rfl
  | reset name =>
    left
    rw [Operation.perform, run_reset]
    rfl
  | tell kind lines => exact absurd rfl (htell kind lines)
  | seekBefore p =>
    refine spares_request s _ fun n q => ?_
    rw [Request.ofCommand_seekBefore]
    exact TextProcess.text_moveTo q _
  | seekExact p => exact spares_seek s _ rfl
  | seekScope => exact spares_seek s _ rfl
  | seekEnd => exact spares_seek s _ rfl
  | errors => exact spares_other s _ rfl
  | nextScope => exact Or.inr ⟨rfl, [], .nil _, List.forall_mem_nil _⟩
  | previousScope => exact Or.inr ⟨rfl, [], .nil _, List.forall_mem_nil _⟩
  | boundary => exact spares_other s _ rfl
  | whichFile name ext => exact spares_other s _ rfl
  | whichWithExt ext =>
    have hspares := spares_other s (Json.listOf? Json.text?)
      (show Request.ofCommand (Command.whichWithExt ext) = .other from rfl)
    rw [Operation.perform, Session.whichWithExt, Exchange.run_bind]
    rcases hrun : (onServer (request (Command.whichWithExt ext) (Json.listOf? Json.text?))).run s
      with ⟨c | files, s'⟩ <;> rw [hrun] at hspares <;> exact hspares
  | usePackages packages => exact spares_other s _ rfl
  | listPackages => exact spares_other s _ rfl
  | loadProject isFile dir depth => exact spares_loadProject isFile dir depth s
  | _ => cases hop

theorem run_tell (kind : TellKind) (lines : List String) (s : Session σ) :
    (tell kind lines).run s =
      ((entry s.server (Command.tell kind lines)).satisfied,
        { s with server := next s.server (Command.tell kind lines) }) := by
  rw [tell, onServer, onTracked, Exchange.run_zoom, Sync.onServer, Exchange.run_zoom, Feed.tell,
    run_request]
  rfl

/-! ## The text before the confirmed place -/

/-- A tell keeps the text before a place exactly if what it tells and what it replaces are the same
up to there. -/
theorem upTo_tell (p : TextProcess) (cs : List Char) (c : Position) :
    upTo c (p.tell cs).text = upTo c p.text ↔
      upToFrom (place p.front) c cs = upToFrom (place p.front) c p.back := by
  have htext : (p.tell cs).text = p.front ++ cs := List.append_nil _
  rw [htext, TextProcess.text, upTo_append, upTo_append, List.append_cancel_left_eq]

theorem upTo_tell_of_le {p : TextProcess} {c : Position} (h : c ≤ place p.front)
    (cs : List Char) : upTo c (p.tell cs).text = upTo c p.text := by
  rw [upTo_tell, upToFrom_eq_nil h, upToFrom_eq_nil h]

/-- The process that the server of a session has. -/
def process (s : Session (Recorded TextServer)) : TextProcess := s.server.inner.process

/-- A tell to the process there is replaces what follows its cursor, or it does nothing. The first
is the case if it is answered well. -/
theorem process_tell {s : Session (Recorded TextServer)} {kind : TellKind} {lines : List String}
    (hprocess : ((tell kind lines).run s).2.server.inner.generation = s.server.inner.generation) :
    (((tell kind lines).run s).2.process = s.process ∨
        ((tell kind lines).run s).2.process =
          s.process.tell (Command.chunkText lines).toList) ∧
      ∀ satisfied, ((tell kind lines).run s).1 = .ok satisfied →
        ((tell kind lines).run s).2.process =
          s.process.tell (Command.chunkText lines).toList := by
  rw [run_tell] at hprocess ⊢
  have hsteady : (entry s.server.inner (Command.tell kind lines)).after =
      (entry s.server.inner (Command.tell kind lines)).before := hprocess
  have hcarrier : s.server.inner.carrier (Command.tell kind lines) = s.process :=
    TextServer.carrier_of_steady hsteady
  refine ⟨?_, fun satisfied hanswer => ?_⟩
  · have htold := TextServer.process_tell s.server.inner kind lines
    rw [hcarrier] at htold
    exact htold.symm
  · have htold := TextServer.process_of_tell (s := s.server.inner) hanswer
    rw [hcarrier] at htold
    exact htold

/-- **A surviving mark and the text.** If an operation that does not sync a buffer leaves a mark,
and the process is still the same, then the mark is the one there was. The text is what it was,
unless the operation is a tell. A tell keeps the text before the confirmed place if the cursor was
not before this place; and if it was answered well, exactly if what it has told and what followed
the cursor are the same up to there. -/
theorem mark_survives (s : Session (Recorded TextServer)) (op : Operation)
    (hop : op.buffer? = none) {m : Mark} (hm : (op.perform s).tracker.mark = some m)
    (hprocess : (op.perform s).server.inner.generation = s.server.inner.generation) :
    s.tracker.mark = some m ∧
      ((∀ kind lines, op ≠ .tell kind lines) → (op.perform s).process.text = s.process.text) ∧
      ∀ kind lines, op = .tell kind lines →
        (m.confirmed ≤ place s.process.front →
          upTo m.confirmed (op.perform s).process.text = upTo m.confirmed s.process.text) ∧
        ∀ satisfied, ((tell kind lines).run s).1 = .ok satisfied →
          (upTo m.confirmed (op.perform s).process.text = upTo m.confirmed s.process.text ↔
            upToFrom (place s.process.front) m.confirmed (Command.chunkText lines).toList =
              upToFrom (place s.process.front) m.confirmed s.process.back) := by
  by_cases htell : ∃ kind lines, op = .tell kind lines
  · obtain ⟨kind, lines, rfl⟩ := htell
    obtain ⟨hcases, hanswered⟩ := process_tell hprocess
    have hmark : s.tracker.mark = some m := by
      rw [Operation.perform, run_tell] at hm
      exact hm
    refine ⟨hmark, fun hne => absurd rfl (hne kind lines), ?_⟩
    rintro _ _ ⟨⟩
    refine ⟨fun hle => ?_, fun satisfied hanswer => ?_⟩
    · rcases hcases with h | h <;> rw [Operation.perform, h]
      exact upTo_tell_of_le hle _
    · rw [Operation.perform, hanswered satisfied hanswer]
      exact upTo_tell _ _ _
  · have hne : ∀ kind lines, op ≠ .tell kind lines := fun kind lines h => htell ⟨kind, lines, h⟩
    rcases Operation.spares_perform hop hne s with hnone | ⟨htracker, es, htalk, hes⟩
    · rw [hnone] at hm
      cases hm
    · refine ⟨htracker ▸ hm, fun _ => ?_, fun kind lines h => absurd h (hne kind lines)⟩
      have hinner := htalk.recorded.2
      exact TextServer.text_of_talk hinner hes
        (TextServer.steady_of_generation_le hinner (Nat.le_of_eq hprocess))

/-! A buffer of two lines is synced, and then the cursor goes back to its beginning. -/

def syncedTwoLines : List Operation :=
  [.syncTo (.ofLines 0 "lib/a.ml" ["ab", "cd"]) ⟨2, 0⟩, .seekExact ⟨1, 0⟩]

/-- The server takes the sync, and then a seek to the beginning, and one more command. -/
def takesAll : TextServer :=
  ⟨1, .fresh, [.accept (Position.lineStart 1).toJson 0, .accept (.bool true) 0,
    .accept (Position.lineStart 2).toJson 3, .accept (Position.lineStart 1).toJson 0,
    .accept (.bool true) 0]⟩

theorem mark_survives_errors :
    ((Operation.errors.perform (after takesAll syncedTwoLines)).tracker.mark =
        some ⟨⟨0, 0⟩, ⟨3, 0⟩, 1⟩) ∧
      (Operation.errors.perform (after takesAll syncedTwoLines)).process.text =
        "ab\ncd\n".toList := by
  have hmark : (Operation.errors.perform (after takesAll syncedTwoLines)).tracker.mark =
      some ⟨⟨0, 0⟩, ⟨3, 0⟩, 1⟩ := by decide +kernel
  have hkept := (mark_survives (after takesAll syncedTwoLines) .errors rfl hmark
    (by decide +kernel)).2.1 (fun _ _ => nofun)
  refine ⟨hmark, hkept.trans ?_⟩
  decide +kernel

/-- The tell is answered well by the process that the mark belongs to, and the mark survives it. It
still confirms both lines of the buffer, and they are gone. -/
theorem mark_survives_tell_overwrites :
    ((tell .struct ["zz"]).run (after takesAll syncedTwoLines)).1 = .ok true ∧
      (after takesAll (syncedTwoLines ++ [.tell .struct ["zz"]])).tracker.mark =
        some ⟨⟨0, 0⟩, ⟨3, 0⟩, 1⟩ ∧
      (after takesAll (syncedTwoLines ++ [.tell .struct ["zz"]])).server.inner.generation = 1 ∧
      (∀ e ∈ (after takesAll (syncedTwoLines ++ [.tell .struct ["zz"]])).server.history,
        e.after = e.before) ∧
      upTo ⟨3, 0⟩ (after takesAll syncedTwoLines).process.text = "ab\ncd\n".toList ∧
      upTo ⟨3, 0⟩ (after takesAll (syncedTwoLines ++ [.tell .struct ["zz"]])).process.text =
        "zz\n".toList :=
  ⟨eq_ok_of_toOption (by decide +kernel), by decide +kernel, by decide +kernel,
    by decide +kernel, by decide +kernel, by decide +kernel⟩

end Session

end EditorBridge
