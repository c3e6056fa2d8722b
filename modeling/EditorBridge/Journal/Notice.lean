import EditorBridge.Text.Quoted

/-!
# Notices

A notice says what the bridge met with on its way: a topic, how severe it is, a message, and
fields with details. It is written on one line, but its message and its fields may hold line
feeds of their own. Characters of a message that a terminal would take for orders are written as
escapes.
-/

namespace EditorBridge.Journal

inductive Severity where
  | error
  | warning
  | info
  | debug
  | trace
deriving DecidableEq

namespace Severity

def rank : Severity → Nat
  | .error => 1
  | .warning => 2
  | .info => 3
  | .debug => 4
  | .trace => 5

def label : Severity → String
  | .error => "ERROR"
  | .warning => " WARN"
  | .info => " INFO"
  | .debug => "DEBUG"
  | .trace => "TRACE"

end Severity

/-- What the bridge met with. -/
structure Notice where
  severity : Severity
  topic : String
  message : String
  /-- The names of the details and their texts. -/
  fields : List (String × String)
deriving DecidableEq

/-- A character of a message, harmless to a terminal. -/
def harmless (c : Char) : String :=
  if c = '\x1b' ∨ c = '\x07' ∨ c = '\x08' ∨ c = '\x0c' ∨ c = '\x7f' then
    (if c.toNat < 0x10 then "\\x0" else "\\x") ++ Text.hexDigits c.toNat
  else if 0x80 ≤ c.toNat ∧ c.toNat < 0xa0 then Text.numberedEscape c
  else c.toString

def Notice.render (n : Notice) : String :=
  n.severity.label ++ " " ++ n.topic ++ ": " ++ String.join (n.message.toList.map harmless) ++
    String.join (n.fields.map fun (name, text) => " " ++ name ++ "=" ++ text) ++ "\n"

end EditorBridge.Journal
