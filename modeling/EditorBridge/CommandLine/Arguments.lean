import EditorBridge.CommandLine.Usage
import EditorBridge.Text.Likeness

/-!
# Scanning arguments

The words of a command line are options, values of options, plain words, and possibly the name of
a subcommand, after which another scan goes on. An option is written `--name`; its value is the
next word or stands after an equals sign. A word that begins with a hyphen is a value only for a
switch that allows it. After the word `--` all words are plain, and a lone hyphen is plain too.

Words are looked at from left to right, but a plain word, and an option whose value is a word of
its own, is only checked when the next one begins or nothing is left: up to then it is pending. A
word that nothing can be made of ends the scan before the pending one is checked.
-/

namespace EditorBridge.CommandLine

/-- An option of a command. -/
structure Switch where
  name : String
  value : Option (String × Kind)
  allowsHyphen : Bool
  repeats : Bool

def Switch.place (s : Switch) : String :=
  "--" ++ s.name ++ s.value.elim "" fun (name, _) => " <" ++ name ++ ">"

/-- A plain word of a command. -/
structure Slot where
  name : String
  kind : Kind
  required : Bool

def Slot.place (s : Slot) : String :=
  if s.required then "<" ++ s.name ++ ">" else "[" ++ s.name ++ "]"

/-- What a command takes. -/
structure Shape where
  switches : List Switch
  slots : List Slot
  /-- The slot of all further plain words, if there may be more. -/
  more : Option Slot
  subcommands : List String

/-- The slot of a plain word, given the number of words before it. -/
def Shape.slot? (shape : Shape) (before : Nat) : Option Slot := shape.slots[before]?.or shape.more

structure Scan where
  given : List (String × Option String)
  words : List String
  subcommand : Option (String × List String)

namespace Scan

def empty : Scan := ⟨[], [], none⟩

def values (s : Scan) (name : String) : List String :=
  s.given.filterMap fun (other, value) => if other = name then value else none

def value? (s : Scan) (name : String) : Option String := (s.values name).getLast?

def has (s : Scan) (name : String) : Bool := s.given.any (·.1 == name)

/-- Adds an option, unless it is given too often. -/
def give (s : Scan) (switch : Switch) (value : Option String) : Except UsageError Scan :=
  if s.has switch.name && !switch.repeats then .error (.repeated switch.place)
  else .ok { s with given := s.given ++ [(switch.name, value)] }

/-- Adds an option with its value, which has to be of the right kind. -/
def giveValue (s : Scan) (switch : Switch) (value : String) : Except UsageError Scan := do
  let s ← s.give switch (some value)
  match switch.value.bind fun (_, kind) => kind.error? switch.place value with
  | some e => .error e
  | none => .ok s

/-- Adds a plain word, which has to be of the right kind. -/
def say (s : Scan) (slot : Slot) (word : String) : Except UsageError Scan :=
  match slot.kind.error? slot.place word with
  | some e => .error e
  | none => .ok { s with words := s.words ++ [word] }

end Scan

/-- What has been read and not been checked. -/
inductive Pending where
  | nothing
  | option (switch : Switch) (value : Option String)
  | word (slot : Slot) (text : String)

namespace Pending

def waiting? : Pending → Option Switch
  | .option switch none => some switch
  | _ => none

def wordCount : Pending → Nat
  | .word _ _ => 1
  | _ => 0

def settle (p : Pending) (s : Scan) : Except UsageError Scan :=
  match p with
  | .nothing => .ok s
  | .option switch none => .error (.missingValue switch.place)
  | .option switch (some value) => s.giveValue switch value
  | .word slot text => s.say slot text

end Pending

/-- What a word looks like. -/
inductive Word where
  | plain
  | separator
  | long (name : String) (attached : Option String)
  | short (letter : Char)

def Word.ofString (word : String) : Word :=
  match word.toList with
  | ['-', '-'] => .separator
  | '-' :: '-' :: rest =>
    let name := String.ofList (rest.takeWhile (· ≠ '='))
    match rest.dropWhile (· ≠ '=') with
    | [] => .long name none
    | _ :: value => .long name (some (String.ofList value))
  | '-' :: letter :: _ => .short letter
  | _ => .plain

/-- What is wrong with a plain word too many. -/
def Shape.stray (shape : Shape) (word : String) : UsageError :=
  if shape.subcommands.any (Text.areAlike word) then .unrecognized word else .unexpected word

/-- Takes words that are all plain. -/
def scanPlain (shape : Shape) (p : Pending) (s : Scan) :
    List String → Except UsageError (Pending × Scan)
  | [] => .ok (p, s)
  | word :: rest =>
    match shape.slot? (s.words.length + p.wordCount) with
    | some slot => do
      let s ← p.settle s
      scanPlain shape (.word slot word) s rest
    | none => .error (shape.stray word)

/-- Scans words from left to right. -/
def scanWords (shape : Shape) (p : Pending) (s : Scan) :
    List String → Except UsageError (Pending × Scan)
  | [] => .ok (p, s)
  | word :: rest =>
    match p.waiting?.filter (·.allowsHyphen), p.waiting?, Word.ofString word with
    | some switch, _, _ | none, some switch, .plain =>
      scanWords shape (.option switch (some word)) s rest
    | none, none, .plain =>
      if shape.subcommands.contains word then .ok (p, { s with subcommand := some (word, rest) })
      else
        match shape.slot? (s.words.length + p.wordCount) with
        | some slot => do
          let s ← p.settle s
          scanWords shape (.word slot word) s rest
        | none => .error (shape.stray word)
    | none, _, .separator => scanPlain shape p s rest
    | none, _, .short letter => .error (.unexpected (String.ofList ['-', letter]))
    | none, _, .long name attached =>
      match shape.switches.find? (·.name == name) with
      | none => .error (.unexpected ("--" ++ name))
      | some switch =>
        match switch.value.isSome, attached with
        | true, some value => do
          let s ← p.settle s
          let s ← s.giveValue switch value
          scanWords shape .nothing s rest
        | true, none => do
          let s ← p.settle s
          scanWords shape (.option switch none) s rest
        | false, none => do
          let s ← p.settle s
          let s ← s.give switch none
          scanWords shape .nothing s rest
        | false, some value => .error (.needlessValue switch.place value)

def scan (shape : Shape) (words : List String) : Except UsageError (Pending × Scan) :=
  scanWords shape .nothing .empty words

/-- Checks that no required word is missing. -/
def Shape.complete (shape : Shape) (s : Scan) : Except UsageError Scan :=
  match (shape.slots.drop s.words.length).filter Slot.required with
  | [] => .ok s
  | missing => .error (.missingWords (missing.map Slot.place))

/-- Checks what is pending and that no required word is missing. -/
def Shape.conclude (shape : Shape) (p : Pending) (s : Scan) : Except UsageError Scan := do
  let s ← p.settle s
  shape.complete s

end EditorBridge.CommandLine
