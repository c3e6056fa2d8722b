import EditorBridge.Proofs.Server.Blind
import EditorBridge.Proofs.Server.Frame
import EditorBridge.Proofs.Supervisor.Move

/-!
# A server that goes by the command

A server may answer a command by what the command says and nothing else, or it may be one that
cannot be started at all (`AnswersBy`). Its processes may still exit at any time between two
commands, and may close their output or break off an answer.

A supervisor of such a server is ready as long as no start has failed and its process owes it
nothing (`Ready`). It stays ready, and what it answers is the server's answer, whatever has happened
before (`Ready.call`). So ready supervisors cannot be told apart (`indistinct_ready`). With a server
that cannot be started, the first command fails in another way than all others: it says why, and
the others say that a restart is required (`run_call_refused`, `run_call_latched`).
-/

namespace EditorBridge

open EditorBridge.Frame (lineFeed)

/-- An answer of one line at most leaves nothing behind, unless it has broken the pipe. -/
theorem Frame.readOutcome_oneLine {bytes : List UInt8} (h : lineFeed ∉ bytes.dropLast) :
    (readOutcome bytes).2 = [] ∨
      ∃ e, (readOutcome bytes).1 = .error e ∧ Supervisor.breaksPipe e = true := by
  obtain ⟨hrest, hclosed | ⟨cause, hcause⟩ | ⟨v, hv, -⟩⟩ := readOutcome_cases bytes
  · exact Or.inr ⟨.closed, hclosed, rfl⟩
  · exact Or.inr ⟨.transport cause, hcause, rfl⟩
  · exact Or.inl (hrest.trans (piece_eq_of_ofPiece hv h).2)

/-- The server of a host goes by the command. A start is refused for a given reason or succeeds, and
a process that has been started or has been found alive answers a line in a given way, with one line
at most. -/
structure AnswersBy {ω : Type} [Host ω] (serves : ω → ProcessId → Prop)
    (refusal? : String → List String → Option StartError)
    (reply : String → Option (List UInt8)) : Prop where
  starts : ∀ executable flags (host : ω), refusal? executable flags = none →
    ∃ id host', Host.start executable flags host = (.ok id, host') ∧ serves host' id
  refuses : ∀ executable flags (host : ω) cause, refusal? executable flags = some cause →
    ∃ host', Host.start executable flags host = (.error cause, host')
  alive : ∀ id (host host' : ω), Host.hasExited id host = (false, host') → serves host' id
  answers : ∀ id line (host : ω), serves host id → (Host.deliver id line host).1 = reply line
  oneLine : ∀ line bytes, reply line = some bytes → lineFeed ∉ bytes.dropLast

/-- A host of such a server, whose processes run until they are ended. -/
structure AnsweringHost (refusal? : String → List String → Option StartError)
    (reply : String → Option (List UInt8)) where
  /-- How many processes have been started. -/
  started : Nat
  alive : Option ProcessId

namespace AnsweringHost

variable {refusal? : String → List String → Option StartError}
  {reply : String → Option (List UInt8)}

def start (executable : String) (flags : List String) (h : AnsweringHost refusal? reply) :
    Except StartError ProcessId × AnsweringHost refusal? reply :=
  match refusal? executable flags with
  | some cause => (.error cause, h)
  | none => (.ok h.started, ⟨h.started + 1, some h.started⟩)

def stop (id : ProcessId) (h : AnsweringHost refusal? reply) : AnsweringHost refusal? reply :=
  if h.alive = some id then { h with alive := none } else h

instance : Host (AnsweringHost refusal? reply) where
  start := start
  hasExited id h := (h.alive != some id, h)
  deliver id line h := (if h.alive = some id then reply line else none, h)
  stop := stop

theorem answersBy (h : ∀ line bytes, reply line = some bytes → lineFeed ∉ bytes.dropLast) :
    AnswersBy (fun (host : AnsweringHost refusal? reply) id => host.alive = some id)
      refusal? reply where
  starts executable flags host hnone :=
    ⟨host.started, ⟨host.started + 1, some host.started⟩,
      by simp only [Host.start, start, hnone], rfl⟩
  refuses executable flags host cause hcause :=
    ⟨host, by simp only [Host.start, start, hcause]⟩
  alive id host host' hexited := by
    obtain ⟨halive, rfl⟩ := Prod.mk.inj hexited
    simpa using halive
  answers id line host hserves := if_pos hserves
  oneLine := h

end AnsweringHost

/-- What is answered to a command that a process replies to in a given way. -/
def answerTo (reply : String → Option (List UInt8)) (command : Command) :
    Except BridgeError Outcome :=
  match reply command.line with
  | none => .error (.transport .unwritable)
  | some bytes => (Frame.readOutcome bytes).1

theorem answerTo_of_some {reply : String → Option (List UInt8)} {command : Command}
    {bytes : List UInt8} (h : reply command.line = some bytes) :
    answerTo reply command = (Frame.readOutcome bytes).1 := by
  rw [answerTo, h]

namespace Supervisor

variable {ω : Type} {serves : ω → ProcessId → Prop}
  {refusal? : String → List String → Option StartError} {reply : String → Option (List UInt8)}

/-- A process can be started, no start has failed, and the process that there is has written
nothing that has not been read. -/
structure Ready (refusal? : String → List String → Option StartError) (s : Supervisor ω) :
    Prop where
  startable : refusal? s.executable s.flags = none
  unlatched : s.startFailed = false
  read : ∀ p, s.process = some p → p.unread = []

theorem ready_ofHost {executable : String} {flags : List String}
    (h : refusal? executable flags = none) (host : ω) :
    Ready refusal? (ofHost host executable flags) :=
  ⟨h, rfl, fun _ hp => by cases hp⟩

variable [Host ω]

theorem ready_terminate {s : Supervisor ω} (h : Ready refusal? s) : Ready refusal? s.terminate := by
  rw [terminate_eq]
  exact ⟨h.startable, h.unlatched, fun _ hp => by cases hp⟩

/-- The supervisor is ready, and there is a process that serves and has written nothing yet. -/
def Attended (serves : ω → ProcessId → Prop)
    (refusal? : String → List String → Option StartError) (s : Supervisor ω) : Prop :=
  Ready refusal? s ∧ ∃ id, s.process = some ⟨id, []⟩ ∧ serves s.host id

section

variable (hstarts : ∀ executable flags (host : ω), refusal? executable flags = none →
    ∃ id host', Host.start executable flags host = (.ok id, host') ∧ serves host' id)
  (halive : ∀ id (host host' : ω), Host.hasExited id host = (false, host') → serves host' id)

include hstarts in
theorem Ready.start {s : Supervisor ω} (h : Ready refusal? s) :
    ∃ s', start.run s = (.ok (), s') ∧ Attended serves refusal? s' := by
  obtain ⟨id, host, hstart, hserves⟩ := hstarts s.executable s.flags s.host h.startable
  have hrun : Supervisor.start.run s = (.ok (), { s with
      host := host, process := some ⟨id, []⟩, generation := s.generation + 1 }) := by
    simp only [Supervisor.start, Exchange.run_ofFun, hstart]
  refine ⟨_, hrun, ⟨h.startable, h.unlatched, fun p hp => ?_⟩, id, rfl, hserves⟩
  rw [← Option.some.inj hp]

include halive in
/-- A ready supervisor finds its process, or finds none and is still ready. -/
theorem Ready.poll {s : Supervisor ω} (h : Ready refusal? s) :
    Attended serves refusal? s.poll ∨ s.poll.process = none ∧ Ready refusal? s.poll := by
  cases hp : s.process with
  | none =>
    have hpoll : s.poll = s := by rw [Supervisor.poll, hp]
    rw [hpoll]
    exact Or.inr ⟨hp, h⟩
  | some p =>
    have hread : p.unread = [] := h.read p hp
    rcases hexited : Host.hasExited p.id s.host with ⟨_ | _, host⟩
    · have hpoll : s.poll = { s with host := host } := by
        rw [Supervisor.poll, hp]
        simp only [hexited]
      rw [hpoll]
      exact Or.inl ⟨⟨h.startable, h.unlatched, h.read⟩, p.id, by rw [hp, ← hread],
        halive p.id s.host host hexited⟩
    · have hpoll : s.poll = { s with host := host, process := none } := by
        rw [Supervisor.poll, hp]
        simp only [hexited]
      rw [hpoll]
      exact Or.inr ⟨rfl, h.startable, h.unlatched, fun _ hp => by cases hp⟩

include hstarts halive in
theorem Ready.ensureRunning {s : Supervisor ω} (h : Ready refusal? s) :
    ∃ s', ensureRunning.run s = (.ok (), s') ∧ Attended serves refusal? s' := by
  rw [run_ensureRunning]
  rcases h.poll halive with hattended | ⟨hp, hready⟩
  · obtain ⟨id, hp, -⟩ := hattended.2
    have hrunning : s.poll.isRunning = true := by rw [isRunning, hp]; rfl
    rw [if_pos hrunning]
    exact ⟨s.poll, rfl, hattended⟩
  · have hrunning : s.poll.isRunning = false := by rw [isRunning, hp]; rfl
    rw [hrunning, hready.unlatched]
    exact hready.start hstarts

end

/-- An exchange with a process that serves brings the server's answer. -/
theorem Attended.exchange (hserver : AnswersBy serves refusal? reply) {s : Supervisor ω}
    (hs : Attended serves refusal? s) (command : Command) :
    ((droppingProcess (converse command)).run s).1 = answerTo reply command ∧
      Ready refusal? ((droppingProcess (converse command)).run s).2 := by
  obtain ⟨h, id, hp, hserves⟩ := hs
  rcases hdeliver : Host.deliver id command.line s.host with ⟨answer, host⟩
  have hanswer : reply command.line = answer := by
    rw [← hserver.answers id command.line s.host hserves, hdeliver]
  cases answer with
  | none =>
    have hrun : (converse command).run s =
        (.error (.transport .unwritable), { s with host := host }) := by
      simp only [converse, Exchange.run_ofFun, hp, hdeliver]
    rw [run_droppingProcess_of_error hrun, answerTo, hanswer]
    exact ⟨rfl, ready_terminate ⟨h.startable, h.unlatched, h.read⟩⟩
  | some bytes =>
    rcases hread : Frame.readOutcome bytes with ⟨r, rest⟩
    have hrun : (converse command).run s =
        (r, { s with host := host, process := some ⟨id, rest⟩ }) := by
      simp only [converse, Exchange.run_ofFun, hp, hdeliver, List.nil_append, hread]
    have honeLine := Frame.readOutcome_oneLine (hserver.oneLine _ _ hanswer)
    rw [hread] at honeLine
    have hkept : rest = [] →
        Ready refusal? { s with host := host, process := some ⟨id, rest⟩ } := by
      rintro rfl
      exact ⟨h.startable, h.unlatched, fun p hp => by rw [← Option.some.inj hp]⟩
    rw [answerTo, hanswer]
    simp only [hread]
    cases r with
    | ok outcome =>
      rw [run_droppingProcess_of_ok hrun]
      rcases honeLine with hrest | ⟨e, he, -⟩
      · exact ⟨rfl, hkept hrest⟩
      · cases he
    | error e =>
      rw [run_droppingProcess_of_error hrun]
      refine ⟨rfl, ?_⟩
      cases hbreaks : breaksPipe e with
      | true =>
        rw [if_pos rfl, terminate_eq]
        exact ⟨h.startable, h.unlatched, fun _ hp => by cases hp⟩
      | false =>
        rw [if_neg (by simp)]
        rcases honeLine with hrest | ⟨e', he', hbreaks'⟩
        · exact hkept hrest
        · obtain rfl : e = e' := Except.error.inj he'
          rw [hbreaks] at hbreaks'
          cases hbreaks'

/-- **A ready supervisor answers what the server answers,** and stays ready. -/
theorem Ready.call (hserver : AnswersBy serves refusal? reply) {s : Supervisor ω}
    (h : Ready refusal? s) (command : Command) :
    ((call command).run s).1 = answerTo reply command ∧
      Ready refusal? ((call command).run s).2 := by
  obtain ⟨s', hrun, hattended⟩ := h.ensureRunning hserver.starts hserver.alive
  rw [run_call, hrun]
  exact hattended.exchange hserver command

/-- Ready supervisors cannot be told apart. -/
theorem indistinct_ready (hserver : AnswersBy serves refusal? reply) :
    Indistinct fun s t : Supervisor ω => Ready refusal? s ∧ Ready refusal? t := by
  rintro command s t ⟨hs, ht⟩
  obtain ⟨hanswer, hready⟩ := hs.call hserver command
  obtain ⟨hanswer', hready'⟩ := ht.call hserver command
  exact ⟨hanswer.trans hanswer'.symm, hready, hready'⟩

/-! ## A server that cannot be started -/

theorem run_call_of_idle {s : Supervisor ω} (hp : s.process = none) (command : Command) :
    (Supervisor.call command).run s =
      if s.startFailed then (.error .restartRequired, s)
      else match start.run s with
        | (.ok (), s') => (droppingProcess (converse command)).run s'
        | (.error e, s') => (.error e, s') := by
  have hpoll : s.poll = s := by rw [poll, hp]
  have hrunning : s.isRunning = false := by rw [isRunning, hp]; rfl
  rw [run_call, run_ensureRunning, hpoll, hrunning]
  cases s.startFailed <;> rfl

/-- The first command says why the server could not be started, and latches the failure. -/
theorem run_call_refused (hserver : AnswersBy serves refusal? reply) {s : Supervisor ω}
    {cause : StartError} (hcause : refusal? s.executable s.flags = some cause)
    (hp : s.process = none) (hf : s.startFailed = false) (command : Command) :
    ∃ host, (Supervisor.call command).run s =
      (.error (.spawn s.executable cause), { s with host := host, startFailed := true }) := by
  obtain ⟨host, hstart⟩ := hserver.refuses s.executable s.flags s.host cause hcause
  refine ⟨host, ?_⟩
  rw [run_call_of_idle hp, if_neg (by simp [hf])]
  simp only [start, Exchange.run_ofFun, hstart]

/-- From then on a command only says that a restart is required. -/
theorem run_call_latched {s : Supervisor ω} (hp : s.process = none) (hf : s.startFailed = true)
    (command : Command) : (Supervisor.call command).run s = (.error .restartRequired, s) := by
  rw [run_call_of_idle hp, if_pos hf]

end Supervisor

end EditorBridge
