import EditorBridge.Answer.Place
import EditorBridge.Json.Render

/-!
# Commands

A command is a name with arguments, sent as one JSON array. The label of a command, its name and
a first argument that is a string, names it in messages.
-/

namespace EditorBridge

inductive TellKind where
  /-- The first chunk after a seek or a reset. -/
  | struct
  /-- A continuation of the chunk before it. -/
  | ending
deriving DecidableEq, Inhabited

namespace TellKind

def name : TellKind → String
  | .struct => "struct"
  | .ending => "end"

def ofName? (name : String) : Option TellKind :=
  if name = "struct" then some .struct else if name = "end" then some .ending else none

def toJson : TellKind → Json
  | .struct => .string "struct"
  | .ending => .string "end"

def ofJson? (v : Json) : Option TellKind := v.variant?.bind ofName?

end TellKind

/-- A command to the server. -/
structure Command where
  name : String
  args : List Json
deriving Inhabited

namespace Command

def label (c : Command) : String :=
  match c.args.head?.bind Json.text? with
  | some sub => c.name ++ " " ++ sub
  | none => c.name

/-- The array that is sent. -/
def toFrame (c : Command) : Json := .array (.string c.name :: c.args)

/-- The command in an array that was sent. -/
def ofFrame? : Json → Option Command
  | .array (.string name :: args) => some ⟨name, args⟩
  | _ => none

/-- The line that is written: the array and a line feed. -/
def line (c : Command) : String := c.toFrame.render ++ "\n"

/-! ## The commands of the server -/

/-- Reload changed interfaces. -/
def refresh : Command := ⟨"refresh", []⟩

/-- Forget the text, and take the name of the file it belongs to. -/
def reset : Option String → Command
  | none => ⟨"reset", []⟩
  | some name => ⟨"reset", [.string "name", .string name]⟩

/-- The text of a chunk: its lines with a line feed between them and one at the end. -/
def chunkText (lines : List String) : String := String.intercalate "\n" lines ++ "\n"

/-- Replace what follows the cursor by some lines. -/
def tell (kind : TellKind) (lines : List String) : Command :=
  ⟨"tell", [.string kind.name, .string (chunkText lines)]⟩

/-- A position as an argument: an object that is given a line and a column. -/
def positionArg (p : Position) : Json :=
  .object (Json.insertField "col" (.ofNat p.col) (Json.insertField "line" (.ofNat p.line) []))

@[simp] theorem positionArg_eq (p : Position) : positionArg p = p.toJson := by
  have hlt : ("col" : String) < "line" := by decide
  rw [positionArg, Json.insertField, Json.insertField, if_neg (String.lt_asymm hlt),
    if_neg (String.ne_of_lt hlt).symm]
  rfl

/-- Move the cursor to the last place that is safe to continue from and not after a position. -/
def seekBefore (p : Position) : Command := ⟨"seek", [.string "before", positionArg p]⟩

def seekExact (p : Position) : Command := ⟨"seek", [.string "exact", positionArg p]⟩

/-- Move the cursor to the end of the widest scope. -/
def seekScope : Command := ⟨"seek", [.string "maximize_scope"]⟩

def seekEnd : Command := ⟨"seek", [.string "end"]⟩

/-- Complete the beginning of a name, at the cursor or at a given position. -/
def complete (beginning : String) : Option Position → Command
  | none => ⟨"complete", [.string "prefix", .string beginning]⟩
  | some p => ⟨"complete", [.string "prefix", .string beginning, .string "at", positionArg p]⟩

def errors : Command := ⟨"errors", []⟩

/-- The type of an expression, or of what stands at a position. -/
def typeAt (expr : Option String) (p : Position) : Command :=
  match expr with
  | none => ⟨"type", [.string "at", positionArg p]⟩
  | some e => ⟨"type", [.string "expression", .string e, .string "at", positionArg p]⟩

/-- The scopes around a position. -/
def typeEnclosing (p : Position) : Command := ⟨"type", [.string "enclosing", positionArg p]⟩

def boundary : Command := ⟨"boundary", []⟩

def loadProject (path : String) : Command := ⟨"project", [.string "load", .string path]⟩

def usePackages (packages : List String) : Command :=
  ⟨"find", .string "use" :: packages.map .string⟩

def listPackages : Command := ⟨"find", [.string "list"]⟩

/-- Find a source file by name. -/
def whichPath (name : String) : Command := ⟨"which", [.string "path", .string name]⟩

/-- List the source files with an extension. -/
def whichWithExt (ext : String) : Command := ⟨"which", [.string "with_ext", .string ext]⟩

end Command

end EditorBridge
