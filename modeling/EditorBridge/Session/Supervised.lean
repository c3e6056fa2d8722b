import EditorBridge.Server.Supervisor
import EditorBridge.Session.Basic

/-!
# Sessions with a supervised server

What an editor can do about the server process itself. After each of these operations the next
sync sends the whole buffer again.
-/

namespace EditorBridge.Session

variable {ω : Type} [Host ω]

def invalidate : Exchange (Session (Supervisor ω)) Unit := onTracked (Sync.track .invalidate)

def ensureRunning : Exchange (Session (Supervisor ω)) Unit := onServer Supervisor.ensureRunning

def restart : Exchange (Session (Supervisor ω)) Unit := do
  invalidate
  navigate fun _ => .empty
  onServer Supervisor.restart

def addFlags (flags : List String) : Exchange (Session (Supervisor ω)) Unit := do
  invalidate
  onServer (Supervisor.addFlags flags)

def clearFlags : Exchange (Session (Supervisor ω)) Unit := do
  invalidate
  onServer Supervisor.clearFlags

def shutdown : Exchange (Session (Supervisor ω)) Unit := do
  invalidate
  onServer Supervisor.shutdown

def isLoaded (s : Session (Supervisor ω)) : Bool := s.server.isRunning

end EditorBridge.Session
