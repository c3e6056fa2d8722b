import EditorBridge.Answer.Record
import EditorBridge.Buffer

/-!
# Positions, spans and buffers in JSON

A position is written as the record of its line and its column, both 32-bit numbers, and a span
as the record of its start and its end. A buffer goes by its number, of at most 64 bits.
-/

namespace EditorBridge

open Text

namespace Position

def toJson (p : Position) : Json :=
  .object [("col", .ofNat p.col), ("line", .ofNat p.line)]

def coordinateOfJson? (v : Json) : Option Nat := v.natural? maxWord32

def ofJson? (v : Json) : Option Position :=
  match v.record? ["line", "col"] with
  | some [line, col] => do
    let line ← Json.required coordinateOfJson? line
    let col ← Json.required coordinateOfJson? col
    some ⟨line, col⟩
  | _ => none

end Position

namespace Span

def toJson (s : Span) : Json :=
  .object [("end", s.stop.toJson), ("start", s.start.toJson)]

def ofJson? (v : Json) : Option Span :=
  match v.record? ["start", "end"] with
  | some [start, stop] => do
    let start ← Json.required Position.ofJson? start
    let stop ← Json.required Position.ofJson? stop
    some ⟨start, stop⟩
  | _ => none

/-- Reads the two ends of a span from a list of exactly two positions. -/
def ofPair? (v : Json) : Option Span :=
  match v with
  | .array [start, stop] => do
    let start ← Position.ofJson? start
    let stop ← Position.ofJson? stop
    some ⟨start, stop⟩
  | _ => none

end Span

namespace BufferId

def toJson (id : BufferId) : Json := .ofNat id

def ofJson? (v : Json) : Option BufferId := v.natural? maxWord64

end BufferId

end EditorBridge
