import EditorBridge.Proofs.Supervisor.Move
import EditorBridge.Rehearsal.Script
import EditorBridge.Session.Supervised

/-!
# Replacing the server process

A session replaces its server process when a restart is requested and when the flags of the server
change. `Replaced` is what this leaves of the server and of what is known about its copy: no mark,
and a new process or a start that failed.

The main statement, `changeFlags_restarts`, compares the two. A change of the flags does what a
restart with the changed flags would do, and leaves the same session but for the scopes: a restart
forgets them, while after a change of the flags the scopes found by the old process can still be
walked through.
-/

namespace EditorBridge.Session

variable {ω : Type}

/-- A change of the flags that the server is started with. -/
inductive FlagChange where
  | add (flags : List String)
  | clear

/-- The flags after a change. -/
def FlagChange.apply (flags : List String) : FlagChange → List String
  | .add more => flags ++ more
  | .clear => []

/-- The session with other flags for its server, and nothing else changed. -/
def withFlags (s : Session (Supervisor ω)) (flags : List String) : Session (Supervisor ω) :=
  { s with server := { s.server with flags := flags } }

/-- What becomes of a session whose server process is replaced by one with some flags, and of the
request for this. -/
structure Replaced (s : Session (Supervisor ω)) (flags : List String)
    (result : Except BridgeError Unit) (s' : Session (Supervisor ω)) : Prop where
  mark : s'.tracker.mark = none
  tracked : s'.tracker.tracked = s.tracker.tracked
  executable : s'.server.executable = s.server.executable
  flags : s'.server.flags = flags
  outcome :
    (result = .ok () ∧ (∃ id, s'.server.process = some ⟨id, []⟩) ∧
      s'.server.generation = s.server.generation + 1 ∧ s'.server.startFailed = false) ∨
    ((∃ cause, result = .error (.spawn s.server.executable cause)) ∧ s'.server.process = none ∧
      s'.server.generation = s.server.generation ∧ s'.server.startFailed = true)

variable [Host ω]

/-- The operation that makes a change of the flags. -/
def changeFlags : FlagChange → Exchange (Session (Supervisor ω)) Unit
  | .add flags => addFlags flags
  | .clear => clearFlags

theorem run_restart (s : Session (Supervisor ω)) :
    restart.run s = ((Supervisor.restart.run s.server).1,
      ⟨⟨(Supervisor.restart.run s.server).2, s.tracker.invalidate⟩, .empty⟩) := rfl

/-- Both changes set the flags, and then the server is restarted. -/
theorem run_changeFlags (c : FlagChange) (s : Session (Supervisor ω)) :
    (changeFlags c).run s =
      ((restart.run (s.withFlags (c.apply s.server.flags))).1,
        { (restart.run (s.withFlags (c.apply s.server.flags))).2 with
          navigator := s.navigator }) := by
  cases c <;> rfl

/-- **What a restart leaves.** The old process is ended, and a new one is started or its start
fails. -/
theorem replaced_restart (s : Session (Supervisor ω)) :
    Replaced s s.server.flags (restart.run s).1 (restart.run s).2 := by
  have hended : Supervisor.terminate { s.server with startFailed := false } =
      { s.server with
        host := s.server.terminate.host, process := none, startFailed := false } := by
    rw [Supervisor.terminate_prepared s.server s.server.flags, Supervisor.terminate_eq]
  rw [run_restart, Supervisor.run_restart, hended]
  simp only [Supervisor.start, Exchange.run_ofFun]
  rcases Host.start s.server.executable s.server.flags s.server.terminate.host with
    ⟨cause | id, host⟩
  · exact ⟨rfl, rfl, rfl, rfl, Or.inr ⟨⟨cause, rfl⟩, rfl, rfl, rfl⟩⟩
  · exact ⟨rfl, rfl, rfl, rfl, Or.inl ⟨rfl, ⟨id, rfl⟩, rfl, rfl⟩⟩

/-- **A change of the flags is a restart with the changed flags,** except that it leaves the scopes
as they were. So the two leave the same session just if there were none and nothing to walk
through; otherwise the walk goes on after a change of the flags, and not after a restart. -/
theorem changeFlags_restarts (c : FlagChange) (s : Session (Supervisor ω)) :
    Replaced s (c.apply s.server.flags) ((changeFlags c).run s).1 ((changeFlags c).run s).2 ∧
      (changeFlags c).run s =
        ((restart.run (s.withFlags (c.apply s.server.flags))).1,
          { (restart.run (s.withFlags (c.apply s.server.flags))).2 with
            navigator := s.navigator }) ∧
      ((changeFlags c).run s = restart.run (s.withFlags (c.apply s.server.flags)) ↔
        s.navigator = .empty) ∧
      (nextScope.run ((changeFlags c).run s).2).1 = (nextScope.run s).1 ∧
      (nextScope.run (restart.run (s.withFlags (c.apply s.server.flags))).2).1 = .ok none := by
  have hrun := run_changeFlags c s
  have hreplaced := replaced_restart (s.withFlags (c.apply s.server.flags))
  rw [hrun]
  refine ⟨?_, rfl, ⟨fun h => ?_, fun h => ?_⟩, rfl, rfl⟩
  · exact ⟨hreplaced.mark, hreplaced.tracked, hreplaced.executable, hreplaced.flags,
      hreplaced.outcome⟩
  · exact congrArg (fun r => r.2.navigator) h
  · rw [h]
    rfl

/-! A session that has synced a buffer and found two scopes in it: after a change of the flags one
can still go from the first of them to the second, although the process that found them is gone. -/

def scopesFound : Session (Supervisor Rehearsal.Script) where
  server := ⟨⟨[], 1, some 0⟩, "server", [], some ⟨0, []⟩, 1, false⟩
  tracker := ⟨some ⟨⟨1, 0⟩, ⟨2, 0⟩, 1⟩, some 1⟩
  navigator := ⟨[⟨⟨⟨1, 0⟩, ⟨1, 1⟩⟩, "int"⟩, ⟨⟨⟨1, 0⟩, ⟨1, 2⟩⟩, "bool"⟩], 0⟩

theorem changeFlags_keeps_scopesFound :
    (changeFlags (.add ["-v"])).run scopesFound ≠ restart.run (scopesFound.withFlags ["-v"]) ∧
      (nextScope.run ((changeFlags (.add ["-v"])).run scopesFound).2).1 =
        .ok (some (Scope.view 1 ⟨⟨⟨1, 0⟩, ⟨1, 2⟩⟩, "bool"⟩)) ∧
      (nextScope.run (restart.run (scopesFound.withFlags ["-v"])).2).1 = .ok none := by
  refine ⟨fun h => ?_, rfl, rfl⟩
  have hlength := congrArg (fun r => r.2.navigator.length) h
  exact absurd hlength (by decide +kernel)

end EditorBridge.Session
