import EditorBridge.Buffer
import EditorBridge.Sync.Feed

/-!
# Keeping the server in step with a buffer

After a buffer has been sent, a mark says what the server holds: the checkpoint the text came
from, the first position that the server has not been told about, and the server process that
was told. The next time the server is asked to go back to the resume point, the earliest place
where its copy may differ, and is told only what follows the place where it lands.

A sync has four stages: `land` (ask the server to go back), `begin` (or else reset it), `tell`
(feed it the delta) and `finish` (move the cursor to the target). The mark is replaced between
the last two, the tracked buffer after the last one, so that an error in between leaves them as
they were.
-/

namespace EditorBridge

/-- What the server is known to hold. -/
structure Mark where
  checkpoint : Checkpoint
  /-- The first position that the server has not been told about. -/
  confirmed : Position
  /-- The server process that was told. -/
  generation : Nat
deriving DecidableEq, Inhabited

/-- What is known about the server's copy. -/
structure Tracker where
  mark : Option Mark
  /-- The buffer of the last sync that succeeded. -/
  tracked : Option BufferId
deriving DecidableEq, Inhabited

namespace Tracker

def initial : Tracker := ⟨none, none⟩

/-- Whether a sync of the buffer moves away from the tracked one. -/
def isSwitch (t : Tracker) (buffer : BufferId) : Bool := t.tracked != some buffer

def invalidate (t : Tracker) : Tracker := { t with mark := none }

/-- The mark, if it is one of this buffer and of this server process. -/
def usableMark? (t : Tracker) (buffer : BufferId) (generation : Nat) : Option Mark :=
  t.mark.filter fun m => m.checkpoint.buffer == buffer && m.generation == generation

end Tracker

/-- The earliest place where the server's copy may differ from the buffer. -/
def Mark.resumePoint (m : Mark) (buffer : Buffer) : Position :=
  match buffer.changedSince m.checkpoint with
  | some changed => min changed m.confirmed
  | none => m.confirmed

inductive SyncMode where
  /-- The server was reset and told everything. -/
  | full
  /-- The server was told what follows the place where it landed. -/
  | incremental
deriving DecidableEq, Inhabited

structure SyncReport where
  mode : SyncMode
  /-- What was told, if there was anything to tell. -/
  feed : Option FeedReport
  /-- Whether another buffer was tracked before. -/
  switched : Bool
  position : Position
deriving DecidableEq, Inhabited

/-- How many lines, or rests of lines, the server was told. -/
def SyncReport.linesSent (r : SyncReport) : Nat := r.feed.elim 0 FeedReport.linesSent

/-- A server together with what is known about its copy. -/
structure Tracked (σ : Type) where
  server : σ
  tracker : Tracker

namespace Sync

variable {σ α : Type}

def onServer (x : Exchange σ α) : Exchange (Tracked σ) α :=
  x.zoom Tracked.server fun server t => { t with server := server }

/-- Changes what is known about the server's copy. -/
def track (f : Tracker → Tracker) : Exchange (Tracked σ) Unit :=
  Exchange.change fun t => { t with tracker := f t.tracker }

/-- The lines from `landed` to the end of line `endLine`, of which the first one may be the rest
of a line. -/
def delta (lines : List String) (landed : Position) (endLine : Nat) : List String :=
  match (lines.take endLine).drop (landed.line - 1) with
  | [] => []
  | first :: rest => Text.dropChars landed.col first :: rest

variable [Transport σ]

/-- Forgets the mark and the server's text. -/
def reset (name : Option String) : Exchange (Tracked σ) Position := do
  track Tracker.invalidate
  onServer (request (Command.reset name) Position.ofJson?)

/-- Asks the server to go back to the resume point, if there is a usable mark. The place where it
lands is of use if it is past the first line and still in the same server process. -/
def land (buffer : Buffer) : Exchange (Tracked σ) (Option Position) := do
  let mark? ← Exchange.look fun t =>
    t.tracker.usableMark? buffer.id (Transport.generation t.server)
  match mark? with
  | none => pure none
  | some mark =>
    let landed ←
      onServer (request (Command.seekBefore (mark.resumePoint buffer)) Position.ofJson?)
    let generation ← Exchange.look fun t => Transport.generation t.server
    pure (if generation = mark.generation ∧ 1 < landed.line then some landed else none)

/-- Where the telling begins: where the server landed, or else at the start, after a reset. -/
def begin (buffer : Buffer) : Exchange (Tracked σ) (SyncMode × Position) := do
  match ← land buffer with
  | some landed => pure (.incremental, landed)
  | none =>
    let _ ← reset (some buffer.basename)
    pure (.full, Position.lineStart 1)

/-- Tells the lines from a place to line `endLine`, if there are any. -/
def tell (buffer : Buffer) (start : Position) (endLine : Nat) :
    Exchange (Tracked σ) (Option FeedReport) :=
  match delta buffer.lines start endLine with
  | [] => pure none
  | chunk => onServer do
    let report ← Feed.feed buffer.lines chunk endLine
    pure (some report)

/-- The first position the server has not been told about. -/
def confirmed (start : Position) : Option FeedReport → Position
  | some report => Position.lineStart (report.endLine + 1)
  | none => start

/-- Moves the server's cursor to the target, and then tracks the buffer. -/
def finish (buffer : Buffer) (target : Position) : Exchange (Tracked σ) Position := do
  let position ← onServer (request (Command.seekExact target) Position.ofJson?)
  track fun t => { t with tracked := some buffer.id }
  pure position

/-- Brings the server's copy up to the line of a position, and its cursor to the position. -/
def syncTo (buffer : Buffer) (target : Position) : Exchange (Tracked σ) SyncReport := do
  let switched ← Exchange.look fun t => t.tracker.isSwitch buffer.id
  let (mode, start) ← begin buffer
  let feed ← tell buffer start (min target.line buffer.lineCount)
  let generation ← Exchange.look fun t => Transport.generation t.server
  track fun t =>
    { t with mark := some ⟨buffer.checkpoint, confirmed start feed, generation⟩ }
  let position ← finish buffer target
  pure ⟨mode, feed, switched, position⟩

end Sync

end EditorBridge
