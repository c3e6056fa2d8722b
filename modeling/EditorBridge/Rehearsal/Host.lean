import EditorBridge.Files.Executable
import EditorBridge.Server.Supervisor
import EditorBridge.Text.Lines

/-!
# A rehearsed host

A host on which every process plays the same part: it answers its first command with the first of
the arranged replies, its second command with the second one, and exits when it is given a command
and there are no replies left. When a process gets its first command it notes its flags in a log,
and it notes every command.

An executable is a file that has been marked as executable. An argument of a process holds no
null character and is less than 128 KiB long.
-/

namespace EditorBridge.Rehearsal

/-- A process and how far it has come. -/
structure Player where
  id : ProcessId
  flags : List String
  served : Nat
  exited : Bool

structure Host where
  replies : List String
  surroundings : Surroundings
  executables : List (List String)
  players : List Player
  /-- The lines noted, the latest first. -/
  log : List String

namespace Host

/-- A host without processes. -/
def ofReplies (replies : List String) (surroundings : Surroundings) : Host :=
  ⟨replies, surroundings, [], [], []⟩

def changeFiles (h : Host) (f : FileTree → FileTree) : Host :=
  { h with surroundings := { h.surroundings with files := f h.surroundings.files } }

def install (h : Host) (place : List String) : Host :=
  { h.changeFiles (·.put place (.file [])) with executables := place :: h.executables }

def uninstall (h : Host) (place : List String) : Host :=
  { h.changeFiles (·.erase place) with executables := h.executables.filter (· != place) }

def isExecutable (h : Host) (path : Path) : Bool :=
  match h.surroundings.files.resolve? h.surroundings.cwd path with
  | some place => h.executables.contains place
  | none => false

/-- The length in bytes that no argument of a process reaches. -/
def argumentBytes : Nat := 131072

/-- Why a process cannot be given some arguments, if it cannot. -/
def argumentError? (texts : List String) : Option ArgumentError :=
  if texts.any fun text => text.toList.contains '\x00' then some .nullCharacter
  else if texts.any fun text => argumentBytes ≤ text.utf8ByteSize then some .tooLong
  else none

/-- Notes a text, line by line. -/
def note (h : Host) (text : String) : Host :=
  { h with log := (Text.lines (text ++ "\n")).reverse ++ h.log }

def update (h : Host) (id : ProcessId) (f : Player → Player) : Host :=
  { h with players := h.players.map fun p => if p.id = id then f p else p }

def start (executable : String) (flags : List String) (h : Host) :
    Except StartError ProcessId × Host :=
  match (h.surroundings.executablePaths executable).find? h.isExecutable with
  | none => (.error .notFound, h)
  | some path =>
    match argumentError? flags with
    | some cause => (.error (.notRun path cause), h)
    | none =>
      let player : Player := ⟨h.players.length, flags, 0, false⟩
      (.ok player.id, { h with players := player :: h.players })

def running? (h : Host) (id : ProcessId) : Option Player :=
  h.players.find? fun p => p.id == id && !p.exited

def deliver (id : ProcessId) (line : String) (h : Host) : Option (List UInt8) × Host :=
  match h.running? id with
  | none => (none, h)
  | some p =>
    let h := if p.served = 0 then h.note ("spawn " ++ String.intercalate " " p.flags) else h
    let h := h.note (String.ofList (line.toList.filter (· != '\n')))
    let h := h.update id fun p => { p with served := p.served + 1 }
    match h.replies[p.served]? with
    | some reply => (some (Text.encodeUtf8 (reply ++ "\n")), h)
    | none => (some [], h.update id fun p => { p with exited := true })

def stop (id : ProcessId) (h : Host) : Host := h.update id fun p => { p with exited := true }

instance : EditorBridge.Host Host where
  start := start
  hasExited id h := ((h.running? id).isNone, h)
  deliver := deliver
  stop := stop

end Host

end EditorBridge.Rehearsal
