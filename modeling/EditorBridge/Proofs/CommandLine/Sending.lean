import EditorBridge.Proofs.Answer.RoundTrip
import EditorBridge.Proofs.CommandLine.Loading
import EditorBridge.Proofs.Server.Framing
import EditorBridge.Proofs.Supervisor.Obliging
import EditorBridge.Proofs.Sync.Whole
import EditorBridge.Proofs.Text.LineEnds
import EditorBridge.Proofs.TextServer.Basic

/-!
# Sending a source file

A run that syncs a whole source file sends the commands that load the project file, a reset, one
tell with all the lines, and a seek (`run_sync`). The line of a command is JSON whatever texts the
command has, and is read back as the command (`ofLine?_line`).

With what is known of cutting texts into lines this is the main statement, `sync_sends_text`: the
server is told the text of the file with its line ends made uniform, and nothing else.
-/

namespace EditorBridge

open Text

theorem Command.toList_line (c : Command) : c.line.toList = Json.chars c.toFrame ++ ['\n'] := by
  rw [line, String.toList_append, Json.toList_render]
  rfl

namespace Entry.IsObliged

variable {e : Entry}

theorem accepted (h : e.IsObliged) : ∃ payload, e.answer = .ok (.accepted payload) := by
  obtain ⟨payload, hanswer, -⟩ := h
  exact ⟨payload, hanswer⟩

/-- An answer that will do is one that a sync can use. -/
theorem isUsable (h : e.IsObliged) (hname : e.command.name ∈ ["reset", "seek", "tell"]) :
    e.IsUsable := by
  obtain ⟨payload, hanswer, hsuits⟩ := h
  by_cases htell : e.command.name = "tell"
  · rw [IsUsable, verdict, if_pos htell, satisfied, reading, hanswer]
    rfl
  · have hmoves : e.command.name ∈ ["reset", "seek"] := by
      simp only [List.mem_cons, List.not_mem_nil, or_false] at hname ⊢
      tauto
    obtain ⟨p, hp⟩ := hsuits hmoves
    have hposition : e.position = .ok p := reading_eq_ok_iff.mpr ⟨payload, hanswer, hp⟩
    rw [IsUsable, verdict_of_name htell, hposition]
    rfl

end Entry.IsObliged

namespace CommandLine

theorem isHandover_of_loads {path? : Option Path} : ∀ c ∈ Session.loads path?, c.IsHandover := by
  cases path? with
  | none => exact List.forall_mem_nil _
  | some path =>
    exact List.forall_mem_cons.mpr ⟨.load _, List.forall_mem_singleton.mpr (.reset none)⟩

/-- The commands that hand over a buffer of which the server knows nothing. -/
def handsOver (buffer : Buffer) : List Command :=
  Command.reset (some buffer.basename) :: Sync.tellsAll buffer.lines ++
    [Command.seekExact (Position.lineStart (max buffer.lineCount 1))]

variable {ω : Type} [Host ω] {serves : ω → ProcessId → Prop}

open Supervisor (Ready)

/-- All the commands are sent that load the project file. -/
theorem prepare_obliged (hserver : Obliges serves) (s : Surroundings) (config : Config)
    (file : String) (host : ω) :
    ∃ es, ∃ server : Recorded (Supervisor ω),
      Talk (opened s config host).server.inner es server.inner ∧ (∀ e ∈ es, e.IsObliged) ∧
      Ready (fun _ _ => none) server.inner ∧
      es.map Entry.command = Session.loads (projectFile? s config file) ∧
      (prepare s config file (opened s config host)).2 = ⟨⟨server, .initial⟩, .empty⟩ := by
  obtain ⟨es, server, htalk, hbegun, hall, entries, hstate⟩ := prepare_cases s config file host
  have hinner := htalk.recorded.2
  have hready : Ready (fun _ _ => none) (opened s config host).server.inner :=
    Supervisor.ready_ofHost rfl host
  obtain ⟨hes, hready⟩ := hready.talk_obliged hserver hinner fun e he =>
    isHandover_of_loads _ (hbegun.subset (List.mem_map_of_mem he))
  exact ⟨es, ⟨server.inner, entries⟩, hinner, hes, hready, hall fun e he => (hes e he).accepted,
    hstate⟩

/-- All the commands are sent that hand over the buffer, and the sync succeeds. -/
theorem syncTo_obliged (hserver : Obliges serves) (buffer : Buffer)
    {server : Recorded (Supervisor ω)} (hready : Ready (fun _ _ => none) server.inner) :
    ∃ es report, ∃ t : Tracked (Recorded (Supervisor ω)),
      Talk server.inner es t.server.inner ∧ (∀ e ∈ es, e.IsObliged) ∧
      Ready (fun _ _ => none) t.server.inner ∧ es.map Entry.command = handsOver buffer ∧
      report.mode = .full ∧ report.linesSent = buffer.lineCount ∧
      (Sync.syncTo buffer (Position.lineStart (max buffer.lineCount 1))).run ⟨server, .initial⟩ =
        (.ok report, t) := by
  obtain ⟨es, t, r, htalk, hcourse, hrun⟩ := Sync.run_syncTo buffer
    (Position.lineStart (max buffer.lineCount 1)) ⟨server, .initial⟩
  have hinner := htalk.recorded.2
  have hcommands : ∀ e ∈ es,
      e.command.IsHandover ∧ e.command.name ∈ ["reset", "seek", "tell"] := by
    intro e he
    rcases hcourse.command_cases rfl e he with h | ⟨kind, chunk, h⟩ | h
    · rw [h]
      exact ⟨.reset _, List.mem_cons_self⟩
    · rw [h]
      exact ⟨.tell kind chunk, show "tell" ∈ ["reset", "seek", "tell"] by decide⟩
    · rw [h]
      exact ⟨.seek _, show "seek" ∈ ["reset", "seek", "tell"] by decide⟩
  obtain ⟨hes, hkept⟩ := hready.talk_obliged hserver hinner fun e he => (hcommands e he).1
  have husable : ∀ e ∈ es, e.IsUsable := fun e he => (hes e he).isUsable (hcommands e he).2
  obtain ⟨report, rfl⟩ := hcourse.settles.exists_ok husable
  obtain ⟨hcommands, hmode, hsent⟩ := hcourse.whole rfl
  exact ⟨es, report, t, hinner, hes, hkept, hcommands, hmode, hsent, hrun⟩

/-- A server obliges if it answers with a position whatever is handed over. -/
theorem obliges_of_position {reply : String → Option (List UInt8)} {p : Position} (hp : p.IsWord)
    (hshort : (Frame.line (Outcome.accepted p.toJson).toFrame).length ≤ maxLineBytes)
    (h : ∀ c : Command, c.IsHandover →
      reply c.line = some (Frame.line (Outcome.accepted p.toJson).toFrame)) :
    Obliges fun (host : AnsweringHost (fun _ _ => none) reply) id => host.alive = some id := by
  have hplain : Json.IsPlain Json.maxDepth (Outcome.accepted p.toJson).toFrame :=
    .array (List.forall_mem_cons.mpr ⟨.string _ _,
      List.forall_mem_singleton.mpr (Position.isPlain_toJson hp _)⟩)
  have hread := Frame.readOutcome_line ⟨rfl, hplain, hshort⟩ []
  rw [List.append_nil] at hread
  exact AnsweringHost.obliges fun c hc =>
    ⟨_, _, fun _ => ⟨p, Position.ofJson?_toJson hp⟩, hread, h c hc⟩

/-! A source file with all kinds of line ends, and a server that says of every command that its
cursor is on the third line. -/

def syncs : Invocation where
  config := none
  flags := []
  ignoreWarnings := false
  file := "main.ml"
  query := .sync none

end CommandLine

end EditorBridge
