import EditorBridge.Position
import EditorBridge.Text.Lines

/-!
# Buffers

A buffer is the text of one file in the editor: its lines, a revision that every edit increases,
and a log of where each edit touched the text first. A checkpoint names a revision of a buffer,
and `changedSince` is the earliest place that has been edited since.
-/

namespace EditorBridge

open Text

/-- The number of a buffer in the editor. -/
abbrev BufferId := Nat

/-- A buffer as it was at one revision. -/
structure Checkpoint where
  buffer : BufferId
  revision : Nat
deriving DecidableEq, Inhabited

/-- An edit: the revision it led to, and the first place it touched. -/
structure Edit where
  revision : Nat
  place : Position
deriving DecidableEq

/-- The text of one file in the editor. -/
structure Buffer where
  id : BufferId
  /-- The path of the file. -/
  name : String
  lines : List String
  revision : Nat
  /-- The edits, the latest first. -/
  edits : List Edit
deriving Inhabited

namespace Buffer

def ofLines (id : BufferId) (name : String) (lines : List String) : Buffer :=
  ⟨id, name, lines, 0, []⟩

def ofText (id : BufferId) (name text : String) : Buffer := ofLines id name (Text.lines text)

def lineCount (b : Buffer) : Nat := b.lines.length

/-- The last part of the path, after any slash or backslash. -/
def basename (b : Buffer) : String :=
  String.ofList (b.name.toList.reverse.takeWhile fun c => c != '/' && c != '\\').reverse

def text (b : Buffer) : String := terminated b.lines

/-- The buffer as it is now. -/
def checkpoint (b : Buffer) : Checkpoint := ⟨b.id, b.revision⟩

/-- The earliest place edited since a checkpoint was taken, or nothing if the buffer has not been
edited since. Since the checkpoint of another buffer everything may have changed. -/
def changedSince (b : Buffer) (c : Checkpoint) : Option Position :=
  if c.buffer = b.id then
    ((b.edits.filter (c.revision < ·.revision)).map Edit.place).min?
  else some (Position.lineStart 1)

/-! ## Edits -/

/-- Gives the buffer new lines and logs the edit. -/
def record (b : Buffer) (lines : List String) (place : Position) : Buffer :=
  { b with
    lines := lines
    revision := b.revision + 1
    edits := ⟨b.revision + 1, place⟩ :: b.edits }

/-- Replaces the text of a line. A line that does not exist is left alone. -/
def setLine (b : Buffer) (line : Nat) (text : String) : Buffer :=
  match line with
  | 0 => b
  | index + 1 =>
    match b.lines[index]? with
    | none => b
    | some old =>
      b.record (b.lines.set index text) ⟨line, commonLength old.toList text.toList⟩

/-- Inserts a line so that it gets the given number, or the nearest number there is. -/
def insertLine (b : Buffer) (line : Nat) (text : String) : Buffer :=
  let index := min (max line 1 - 1) b.lineCount
  b.record (b.lines.insertIdx index text) (Position.lineStart (index + 1))

def removeLine (b : Buffer) (line : Nat) : Buffer :=
  if line = 0 ∨ b.lineCount < line then b
  else b.record (b.lines.eraseIdx (line - 1)) (Position.lineStart line)

def pushLine (b : Buffer) (text : String) : Buffer := b.insertLine (b.lineCount + 1) text

end Buffer

end EditorBridge
