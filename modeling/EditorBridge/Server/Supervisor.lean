import EditorBridge.Server.Frame
import EditorBridge.Server.Transport

/-!
# Supervising the server process

There is at most one server process. It is started when the first command is sent, replaced on
request and whenever its flags change, and dropped when a line cannot be exchanged with it, so
that no later command can meet the rest of an earlier answer. A start that fails is not tried
again before a restart is requested.

What the supervisor needs of the operating system is the class `Host`.
-/

namespace EditorBridge

/-- The number of a process. -/
abbrev ProcessId := Nat

/-- Where processes run. -/
class Host (ω : Type) where
  /-- Tries to start an executable with some flags. -/
  start : String → List String → ω → Except StartError ProcessId × ω
  /-- Whether a process has exited. -/
  hasExited : ProcessId → ω → Bool × ω
  /-- Writes a line to a process and takes what the process writes before it waits for the next
  one or exits. Nothing if the process does not take the line. -/
  deliver : ProcessId → String → ω → Option (List UInt8) × ω
  /-- Ends a process and waits until it has ended. -/
  stop : ProcessId → ω → ω

structure Process where
  id : ProcessId
  unread : List UInt8
deriving DecidableEq

/-- The keeper of the server process. -/
structure Supervisor (ω : Type) where
  host : ω
  executable : String
  flags : List String
  process : Option Process
  /-- How many processes have been started. -/
  generation : Nat
  /-- Whether a start has failed since the last requested restart. -/
  startFailed : Bool

namespace Supervisor

variable {ω : Type}

def ofHost (host : ω) (executable : String) (flags : List String) : Supervisor ω :=
  ⟨host, executable, flags, none, 0, false⟩

def isRunning (s : Supervisor ω) : Bool := s.process.isSome

variable [Host ω]

def start : Exchange (Supervisor ω) Unit :=
  .ofFun fun s =>
    match Host.start s.executable s.flags s.host with
    | (.ok id, host) =>
      (.ok (), { s with
        host := host, process := some ⟨id, []⟩, generation := s.generation + 1 })
    | (.error cause, host) =>
      (.error (.spawn s.executable cause), { s with host := host, startFailed := true })

def startUnlessFailed : Exchange (Supervisor ω) Unit := do
  if ← Exchange.look Supervisor.startFailed then throw .restartRequired
  else start

/-- The supervisor after it has noticed whether its process has exited. -/
def poll (s : Supervisor ω) : Supervisor ω :=
  match s.process with
  | none => s
  | some p =>
    match Host.hasExited p.id s.host with
    | (false, host) => { s with host := host }
    | (true, host) => { s with host := host, process := none }

def terminate (s : Supervisor ω) : Supervisor ω :=
  match s.process with
  | none => s
  | some p => { s with host := Host.stop p.id s.host, process := none }

/-- Starts a process unless one is alive. -/
def ensureRunning : Exchange (Supervisor ω) Unit := do
  Exchange.change poll
  if ← Exchange.look isRunning then pure ()
  else startUnlessFailed

def restart : Exchange (Supervisor ω) Unit := do
  Exchange.change fun s => terminate { s with startFailed := false }
  start

def shutdown : Exchange (Supervisor ω) Unit := Exchange.change terminate

def addFlags (flags : List String) : Exchange (Supervisor ω) Unit := do
  Exchange.change fun s => { s with flags := s.flags ++ flags }
  restart

def clearFlags : Exchange (Supervisor ω) Unit := do
  Exchange.change fun s => { s with flags := [] }
  restart

/-- Whether an error leaves it open what the process will write next. -/
def breaksPipe : BridgeError → Bool
  | .closed | .transport _ => true
  | _ => false

def converse (command : Command) : Exchange (Supervisor ω) Outcome :=
  .ofFun fun s =>
    match s.process with
    | none => (.error .closed, s)
    | some p =>
      match Host.deliver p.id command.line s.host with
      | (none, host) => (.error (.transport .unwritable), { s with host := host })
      | (some written, host) =>
        let (answer, rest) := Frame.readOutcome (p.unread ++ written)
        (answer, { s with host := host, process := some ⟨p.id, rest⟩ })

/-- Lets an exchange fail only after its process has been ended, where the failure asks for it. -/
def droppingProcess {α : Type} (x : Exchange (Supervisor ω) α) : Exchange (Supervisor ω) α :=
  .ofFun fun s =>
    match x.run s with
    | (.ok a, s') => (.ok a, s')
    | (.error e, s') => (.error e, if breaksPipe e then terminate s' else s')

/-- Sends a command to a process, which is started if there is none. -/
def call (command : Command) : Exchange (Supervisor ω) Outcome := do
  ensureRunning
  droppingProcess (converse command)

instance : Transport (Supervisor ω) where
  call := call
  generation := generation

end Supervisor

end EditorBridge
