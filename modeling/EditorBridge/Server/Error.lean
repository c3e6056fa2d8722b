import EditorBridge.Files.Path
import EditorBridge.Server.KnownFailure
import EditorBridge.Server.Outcome

/-!
# Errors of the bridge

A command can fail in three ways: the server rejects it, the server cannot be reached or
understood, or the payload has the wrong shape. Each cause is a constructor, and its wording is
in one place.
-/

namespace EditorBridge

/-- Why a line could not be exchanged. -/
inductive TransportError where
  | notText
  | oversized
  | truncated
  | notJson
  | unwritable
deriving DecidableEq

/-- Why a process cannot be given an argument. -/
inductive ArgumentError where
  /-- It holds a null character. -/
  | nullCharacter
  | tooLong
deriving DecidableEq

def ArgumentError.message : ArgumentError → String
  | .nullCharacter => "nul byte found in provided data"
  | .tooLong => "Argument list too long (os error 7)"

/-- Why a server could not be started. -/
inductive StartError where
  | notFound
  /-- The executable at a path cannot be run with the flags. -/
  | notRun (path : Path) (cause : ArgumentError)
deriving DecidableEq

namespace StartError

def message (executable : String) : StartError → String
  | .notFound => executable ++ " not found in PATH"
  | .notRun path _ => "spawning " ++ path.render

/-- What the system says of a start that failed. -/
def detail : StartError → String
  | .notFound => "cannot find binary path"
  | .notRun _ cause => cause.message

end StartError

def maxLineBytes : Nat := 4194304

def TransportError.message : TransportError → String
  | .notText => "reading frame line"
  | .oversized => "frame exceeds maximum " ++ toString maxLineBytes ++ " bytes"
  | .truncated => "unexpected EOF in the middle of a frame"
  | .notJson => "parsing JSON frame"
  | .unwritable => "writing frame"

/-- The text of a payload: a string as it is, anything else as JSON. -/
def Json.asText : Json → String
  | .string s => s
  | v => v.render

/-- The message of an error payload, or else its text. -/
def Json.errorText (v : Json) : String :=
  match (v.field? "message").bind Json.text? with
  | some message => message
  | none => v.asText

namespace Rejection

def text (r : Rejection) : String :=
  match r.kind with
  | .error => r.payload.errorText
  | _ => r.payload.asText

/-- The tag and what the server said. -/
def message (r : Rejection) : String := r.kind.tag ++ ": " ++ r.text

/-- The text shown to the user: known failures and exceptions have words of their own. -/
def describe (r : Rejection) : String :=
  match r.kind with
  | .error => r.text
  | _ => (KnownFailure.classify r.text).elim r.text KnownFailure.message

end Rejection

/-- Why an operation failed. -/
inductive BridgeError where
  | spawn (executable : String) (cause : StartError)
  /-- The server could not be started earlier and has not been restarted since. -/
  | restartRequired
  | closed
  | transport (cause : TransportError)
  | protocol (violation : Violation)
  | rejected (r : Rejection)
  /-- The payload of an accepted command has the wrong shape. -/
  | unexpectedPayload (label : String)

namespace BridgeError

def message : BridgeError → String
  | .spawn executable cause =>
    "failed to execute " ++ executable ++ ": " ++ cause.message executable ++
      ". Please ensure that " ++ executable ++ " is in PATH and is executable"
  | .restartRequired =>
    "server is not running after a failed start; an explicit restart is required"
  | .closed => "server closed its output"
  | .transport cause => "transport failure: " ++ cause.message
  | .protocol violation => "protocol violation: " ++ violation.message
  | .rejected r => r.message
  | .unexpectedPayload label => "unexpected payload for '" ++ label ++ "'"

/-- Whether the server answered and rejected the command. -/
def isRejection : BridgeError → Bool
  | .rejected _ => true
  | _ => false

def describe : BridgeError → String
  | .rejected r => r.describe
  | e => e.message

end BridgeError

end EditorBridge
