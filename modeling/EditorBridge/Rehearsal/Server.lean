import EditorBridge.Server.Frame
import EditorBridge.Server.Transport

/-!
# A rehearsed server

A transport whose answers are arranged beforehand. For each command it takes the next reply of a
queue, or else the answer arranged for the label of the command, or else, if it may, an answer
made up on the spot: a server that accepts everything. Without a reply its output ends, unless
bytes of an earlier reply are left over.

It can be told to land short of where it is asked to go back to, to ask for more lines a number
of times, to be replaced by a new process, and to refuse what is written to it.
-/

namespace EditorBridge.Rehearsal

inductive Reply where
  /-- A complete line, sent by the current process or by a new one. -/
  | line (text : String) (byNewProcess : Bool)
  | raw (bytes : List UInt8)
  | nothing

/-- A server whose answers are arranged beforehand. -/
structure Server where
  answers : List (String × String)
  auto : Bool
  /-- The last place to land when asked to go back. -/
  clamp : Option Position
  /-- How many more times to ask for more lines. -/
  hungry : Nat
  /-- Whether to be replaced before the next command. -/
  respawnNext : Bool
  /-- Whether to refuse what is written. -/
  broken : Bool
  generation : Nat
  queue : List Reply
  unread : List UInt8
  /-- The lines written, the latest first. -/
  sent : List String

namespace Server

def initial : Server := ⟨[], false, none, 0, false, false, 1, [], [], []⟩

def emit (s : Server) (bytes : List UInt8) : Server := { s with unread := s.unread ++ bytes }

def emitLine (s : Server) (text : String) : Server := s.emit (Text.encodeUtf8 (text ++ "\n"))

def emitReturn (s : Server) (payload : Json) : Server :=
  s.emit (Text.encodeUtf8 (Outcome.accepted payload).line)

/-- Replaces the server by a new process, if this was arranged. -/
def respawn (s : Server) : Server :=
  if s.respawnNext then { s with generation := s.generation + 1, respawnNext := false } else s

def reply (s : Server) : Reply → Server
  | .line text byNewProcess =>
    let s := if byNewProcess then { s with generation := s.generation + 1 } else s
    s.emitLine text
  | .raw bytes => s.emit bytes
  | .nothing => s

/-- Makes up an answer. -/
def improvise (s : Server) (command : Command) : Server :=
  let asked := command.args[1]?.bind Position.ofJson?
  let label := command.label
  if label = "reset" ∨ label = "reset name" then s.emitReturn (Position.lineStart 1).toJson
  else if label = "tell struct" ∨ label = "tell end" then
    if s.hungry = 0 then s.emitReturn (.bool true)
    else { s with hungry := s.hungry - 1 }.emitReturn (.bool false)
  else if label = "seek before" then
    match asked, s.clamp with
    | some p, some clamp => s.emitReturn (min p clamp).toJson
    | some p, none => s.emitReturn p.toJson
    | none, _ => s.emitReturn .null
  else if label = "seek exact" then
    match asked with
    | some p => s.emitReturn p.toJson
    | none => s.emitReturn .null
  else s.emitReturn .null

def answer (s : Server) (command : Command) : Server :=
  match s.queue with
  | r :: queue => { s with queue := queue }.reply r
  | [] =>
    match s.answers.lookup command.label with
    | some text => s.emitLine text
    | none => if s.auto then s.improvise command else s

/-- Takes a command and answers it. The answer is chosen even if the command is refused. -/
def call (command : Command) : Exchange Server Outcome :=
  .ofFun fun s =>
    let s := s.respawn.answer command
    if s.broken then (.error (.transport .unwritable), s)
    else
      let (outcome, rest) := Frame.readOutcome s.unread
      (outcome, { s with unread := rest, sent := command.toFrame.render :: s.sent })

instance : Transport Server where
  call := call
  generation := generation

end Server

end EditorBridge.Rehearsal
