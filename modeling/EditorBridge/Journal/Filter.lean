import EditorBridge.Config.Environment
import EditorBridge.Journal.Notice
import EditorBridge.Text.Numeral

/-!
# Filters of notices

A filter says which notices are written. It is a list of directives with commas between them. A
directive is a level, a topic, or both with an equals sign between them; between the topic and the
equals sign there may be a span in brackets and fields in braces. A topic stands for all topics
that begin with it, and a level lets through what is at least as severe. Of the directives that
apply to a notice the most specific one decides; where none applies, the notice is not written.

The bridge takes no note of spans, so a directive about a span never applies, nor does one about
the value of a field.
-/

namespace EditorBridge.Journal

open Text

/-- The least severe rank that is let through; nothing is at rank zero. -/
abbrev Level := Nat

def levelNames : List (String × Level) :=
  [("off", 0), ("", 1), ("error", 1), ("warn", 2), ("info", 3), ("debug", 4), ("trace", 5)]

def everything : Level := 5

def level? (text : List Char) : Option Level :=
  match unsigned? maxWord64 text with
  | some n => if n ≤ everything then some n else none
  | none => levelNames.lookup (String.ofList (text.map Char.toLower))

structure Directive where
  /-- What the topics begin with; nothing for all topics. -/
  topic : Option String
  /-- Whether the rule is about a span. -/
  inSpan : Bool
  /-- The fields, and whether the rule is about their values. -/
  fields : List (String × Bool)
  level : Level
deriving DecidableEq

namespace Directive

def ofLevel (level : Level) : Directive := ⟨none, false, [], level⟩

inductive Reading where
  | start
  | topicOrLevel (first : Nat)
  | span (first : Nat)
  | field (first : Nat)
  | fields
  | topic
  | level (first : Nat)

def opensTopic (c : Char) : Bool :=
  c == '-' || c == ':' || c == '_' || c.isAlphanum || 0xc0 ≤ c.toNat

/-- The part of a text between two places. -/
def part (text : List Char) (first last : Nat) : String :=
  String.ofList ((text.drop first).take (last - first))

def withField (d : Directive) (text : String) : Option Directive :=
  if text = "" then none
  else
    let name := text.toList.takeWhile (· ≠ '=')
    some { d with fields := d.fields ++ [(String.ofList name, text.toList.contains '=')] }

/-- Reads the character at a place. -/
def step? (text : List Char) : Reading × Directive → Char × Nat → Option (Reading × Directive)
  | (.start, d), (c, i) =>
    if c = '[' then some (.span (i + 1), d)
    else if opensTopic c then some (.topicOrLevel i, d)
    else none
  | (.topicOrLevel first, d), (c, i) =>
    if c = '=' then some (.level (i + 1), { d with topic := some (part text first i) })
    else if c = '[' then some (.span (i + 1), { d with topic := some (part text first i) })
    else some (.topicOrLevel first, d)
  | (.span first, d), (c, i) =>
    if c = ']' then some (.topic, { d with inSpan := true })
    else if c = '\x7b' then
      some (.field (i + 1), { d with inSpan := part text first i != "" })
    else some (.span first, d)
  | (.field first, d), (c, i) =>
    if c = '\x7d' then (d.withField (part text first i)).map (.fields, ·)
    else some (.field first, d)
  | (.fields, d), (c, _) => if c = ']' then some (.topic, d) else none
  | (.topic, d), (c, i) => if c = '=' then some (.level (i + 1), d) else none
  | (.level first, d), _ => some (.level first, d)

/-- What has been read at the end of a text. A topic without a level lets everything through. -/
def finish? (text : List Char) : Reading × Directive → Option Directive
  | (.topicOrLevel first, d) =>
    let rest := text.drop first
    match level? rest with
    | some level => some { d with level := level }
    | none => some { d with topic := some (String.ofList rest) }
  | (.level first, d) =>
    let rest := text.drop first
    if rest = [] then some d else (level? rest).map fun level => { d with level := level }
  | (.topic, d) => some d
  | _ => none

/-- Reads a directive. Blanks at the ends are passed over, but the places of the parts are counted
as if there were none at the beginning. -/
def ofChars? (text : List Char) : Option Directive :=
  ((trim text).zipIdx.foldlM (step? text) (.start, .ofLevel everything)).bind (finish? text)

def isStatic (d : Directive) : Bool := !d.inSpan && d.fields.all fun (_, hasValue) => !hasValue

def fieldNames (n : Notice) : List String := "message" :: n.fields.map Prod.fst

/-- Whether a directive applies to a notice. -/
def applies (n : Notice) (d : Directive) : Bool :=
  d.isStatic && (d.topic.elim true fun t => t.toList.isPrefixOf n.topic.toList) &&
    d.fields.all fun (name, _) => (fieldNames n).contains name

/-- Whether a directive is at least as specific as another one: the topic counts more than the
fields. -/
def isAsSpecific (d e : Directive) : Bool :=
  let size (d : Directive) : Nat := d.topic.elim 0 fun t => t.utf8ByteSize + 1
  size e < size d || (size d == size e && e.fields.length ≤ d.fields.length)

end Directive

/-- The rules by which notices are written. -/
abbrev Filter := List Directive

namespace Filter

def ofString? (text : String) : Option Filter :=
  let parts := (text.toList.splitOn ',').filter (· ≠ [])
  if parts = [] then some [.ofLevel Severity.error.rank] else parts.mapM Directive.ofChars?

/-- The directive that decides about a notice: of those that are equally specific the last. -/
def decisive? (f : Filter) (n : Notice) : Option Directive :=
  (f.filter (Directive.applies n)).foldl
    (fun best d =>
      match best with
      | some e => if d.isAsSpecific e then some d else some e
      | none => some d)
    none

/-- Whether a notice is written. -/
def admits (f : Filter) (n : Notice) : Bool :=
  (f.decisive? n).any fun d => n.severity.rank ≤ d.level

def variableName : String := "RUST_LOG"

/-- The user's filter. Without one that can be read, warnings and errors are written. -/
def ofEnvironment (env : Config.Environment) : Filter :=
  ((env variableName).bind ofString?).getD [.ofLevel Severity.warning.rank]

end Filter

end EditorBridge.Journal
