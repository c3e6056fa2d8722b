import EditorBridge.Server.Supervisor
import EditorBridge.Text.Lines

/-!
# A scripted host

A host whose processes read from one script: the answer to a command is the next line of the
script, whichever process gets the command. Every executable can be started. A process that is
given a command at the end of the script exits.
-/

namespace EditorBridge.Rehearsal

/-- A script, and the process that reads from it. -/
structure Script where
  lines : List String
  /-- How many processes have been started. -/
  started : Nat
  alive : Option ProcessId

namespace Script

def ofLines (lines : List String) : Script := ⟨lines, 0, none⟩

def start (s : Script) : Except StartError ProcessId × Script :=
  (.ok s.started, { s with started := s.started + 1, alive := some s.started })

def deliver (id : ProcessId) (s : Script) : Option (List UInt8) × Script :=
  if s.alive = some id then
    match s.lines with
    | line :: lines => (some (Text.encodeUtf8 (line ++ "\n")), { s with lines := lines })
    | [] => (some [], { s with alive := none })
  else (none, s)

def stop (id : ProcessId) (s : Script) : Script :=
  if s.alive = some id then { s with alive := none } else s

instance : EditorBridge.Host Script where
  start _ _ := start
  hasExited id s := (s.alive != some id, s)
  deliver id _ := deliver id
  stop := stop

end Script

end EditorBridge.Rehearsal
