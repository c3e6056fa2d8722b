import EditorBridge.Config.Basic
import EditorBridge.Journal.Notice
import EditorBridge.Server.Record

/-!
# Occasions for notices

When the bridge takes notice, and of what. Noticed are the occasions whose notices hold text from
outside: configuration files that are of no use, starts of the server, type queries that the
server rejects, and project files.
-/

namespace EditorBridge.Journal.Notice

def commandLine : String := "merlin_bridge"

def bridge (part : String) : String := "merlin_client::" ++ part

def ofConfigError (e : ConfigError) : Notice :=
  let message := match e with
    | .unreadable _ => "failed to read config: no readable text"
    | .malformed _ fault => "failed to parse config: " ++ fault.message ++ "\n"
  ⟨.warning, bridge "config", message, [("path", e.path.render)]⟩

def startFailed (executable : String) (cause : StartError) : Notice :=
  ⟨.warning, bridge "supervisor",
    "failed to start server: " ++ cause.message executable ++ ": " ++ cause.detail,
    [("executable", executable)]⟩

def started (executable : String) (flags : List String) (generation : Nat) : Notice :=
  ⟨.info, bridge "supervisor", "server started",
    [("executable", executable), ("flags", Text.quoteList flags),
      ("generation", toString generation)]⟩

def expressionRejected (expr : String) (r : Rejection) : Notice :=
  ⟨.debug, bridge "session", "expression type failed, retrying at cursor: " ++ r.message,
    [("expr", Text.quote expr)]⟩

def enclosingRejected (r : Rejection) : Notice :=
  ⟨.debug, bridge "session", "type enclosing rejected: " ++ r.message, []⟩

def noProject (dir : Path) (depth : Nat) : Notice :=
  ⟨.debug, bridge "session", "no project file found",
    [("dir", dir.render), ("max_depth", toString depth)]⟩

def projectLoaded (path : Path) : List Notice :=
  [⟨.info, bridge "session", "project loaded", [("path", path.render)]⟩,
    ⟨.debug, commandLine, "using project file", [("path", path.render)]⟩]

def projectFailed (e : BridgeError) : Notice :=
  ⟨.warning, commandLine, "project load failed: " ++ e.describe, []⟩

/-- What is noticed of a rejected command. -/
def ofRejection (command : Command) (r : Rejection) : List Notice :=
  match command.label, command.args with
  | "type expression", [_, .string expr, _, _] => [expressionRejected expr r]
  | "type enclosing", _ => [enclosingRejected r]
  | _, _ => []

/-- What is noticed of a command to a server with an executable and flags. -/
def ofEntry (executable : String) (flags : List String) (entry : Entry) : List Notice :=
  let starts := if entry.before < entry.after then [started executable flags entry.after] else []
  match entry.answer with
  | .error (.spawn executable cause) => [startFailed executable cause]
  | .ok (.rejected r) => starts ++ ofRejection entry.command r
  | _ => starts

end EditorBridge.Journal.Notice
