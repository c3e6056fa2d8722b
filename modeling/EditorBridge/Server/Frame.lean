import EditorBridge.Json.Parse
import EditorBridge.Server.Transport
import EditorBridge.Text.Lines

/-!
# Lines of JSON

What the server writes is a stream of bytes. It is read in pieces: a piece ends with the first
line feed, after one byte more than a line may have, or with the stream. Whether a piece is a
frame depends on the piece alone, so a bad line never changes how the next one is read.

The plainest transport is a pair of pipes: what the bridge writes goes into one of them, what the
server has to say comes out of the other. There is only one server process.
-/

namespace EditorBridge

open Text

namespace Frame

def lineFeed : UInt8 := 10

/-- How many bytes the next piece of a stream has, unless the stream ends earlier. -/
def pieceLength (stream : List UInt8) : Nat := min (maxLineBytes + 1) (stream.idxOf lineFeed + 1)

/-- The next piece of a stream. -/
def piece (stream : List UInt8) : List UInt8 := stream.take (pieceLength stream)

/-- What follows the next piece of a stream. -/
def afterPiece (stream : List UInt8) : List UInt8 := stream.drop (pieceLength stream)

/-- What a piece says: a JSON value with white space after it, on a complete line. -/
def ofPiece (bytes : List UInt8) : Except TransportError Json :=
  match decodeUtf8? bytes with
  | none => .error .notText
  | some text =>
    if maxLineBytes < bytes.length then .error .oversized
    else if bytes.getLast? ≠ some lineFeed then .error .truncated
    else
      match Json.ofChars? (trimRight text.toList) with
      | none => .error .notJson
      | some v => .ok v

/-- Reads the next piece of a stream; nothing at its end. -/
def read (stream : List UInt8) : Option (Except TransportError Json) × List UInt8 :=
  match stream with
  | [] => (none, [])
  | _ => (some (ofPiece (piece stream)), afterPiece stream)

/-- Reads the answer to a command. -/
def readOutcome (stream : List UInt8) : Except BridgeError Outcome × List UInt8 :=
  let (frame, rest) := read stream
  let outcome := match frame with
    | none => .error .closed
    | some (.error cause) => .error (.transport cause)
    | some (.ok v) => (Outcome.ofFrame v).mapError .protocol
  (outcome, rest)

end Frame

/-- What has been written to the server, and what remains to be read from it. -/
structure Pipe where
  sent : List UInt8
  unread : List UInt8

namespace Pipe

def ofBytes (unread : List UInt8) : Pipe := ⟨[], unread⟩

def call (command : Command) : Exchange Pipe Outcome :=
  .ofFun fun p =>
    let (answer, rest) := Frame.readOutcome p.unread
    (answer, ⟨p.sent ++ encodeUtf8 command.line, rest⟩)

instance : Transport Pipe where
  call := call
  generation _ := 1

end Pipe

end EditorBridge
