import EditorBridge.CommandLine.Arguments

/-!
# Invocations

What the bridge can be asked to do from the command line: a source file and one query about it.
The options for the configuration may stand on either side of the query's name; where they stand
on both sides, those after the name count.
-/

namespace EditorBridge.CommandLine

inductive Query where
  /-- Send the text up to a position, or all of it. -/
  | sync (at? : Option Position)
  | complete (cursor : Position) (beginning : String) (inPlace : Bool)
  | identifiers (cursor : Position) (beginning : String)
  | type (cursor : Position) (expr : Option String)
  /-- Also show so many scopes around the innermost one. -/
  | enclosing (cursor : Position) (expr : Option String) (outward : Nat)
  | errors
  | packages
  | use (packages : List String)
  | which (name : String) (ext : Option String)
  | whichExt (ext : String)
  | phrase (first last : Position)
  | reload
deriving DecidableEq

structure Invocation where
  config : Option String
  flags : List String
  ignoreWarnings : Bool
  file : String
  query : Query
deriving DecidableEq

namespace Invocation

/-- An option that takes a value. -/
def valued (name valueName : String) (kind : Kind) : Switch :=
  ⟨name, some (valueName, kind), false, false⟩

/-- An option without a value. -/
def plain (name : String) : Switch := ⟨name, none, false, false⟩

/-- The options that may stand on either side of the query's name. -/
def shared : List Switch :=
  [valued "config" "CONFIG" .path, ⟨"flag", some ("FLAGS", .text), true, true⟩,
    plain "ignore-warnings"]

def queryNames : List String :=
  ["sync", "complete", "identifiers", "type", "enclosing", "errors", "packages", "use", "which",
    "which-ext", "phrase", "reload"]

/-- The words before the query's name: the source file. -/
def outerShape : Shape := ⟨shared, [⟨"FILE", .path, true⟩], none, queryNames⟩

def cursor : Slot := ⟨"AT", .position, true⟩

/-- What a query takes. -/
def queryShape (name : String) : Shape :=
  let (switches, slots) : List Switch × List Slot :=
    if name = "sync" then ([valued "at" "AT" .position], [])
    else if name = "complete" then ([plain "local"], [cursor, ⟨"PREFIX", .text, true⟩])
    else if name = "identifiers" then ([], [cursor, ⟨"PREFIX", .text, false⟩])
    else if name = "type" then ([valued "expr" "EXPR" .text], [cursor])
    else if name = "enclosing" then
      ([valued "expr" "EXPR" .text, valued "outward" "OUTWARD" .count], [cursor])
    else if name = "which" then ([valued "ext" "EXT" .text], [⟨"NAME", .text, true⟩])
    else if name = "which-ext" then ([], [⟨"EXT", .text, true⟩])
    else if name = "phrase" then ([], [⟨"FIRST", .position, true⟩, ⟨"LAST", .position, true⟩])
    else ([], [])
  let more : Option Slot := if name = "use" then some ⟨"PACKAGES", .text, false⟩ else none
  ⟨shared ++ switches, slots, more, []⟩

def position? (text : String) : Option Position := Position.ofChars? text.toList

def optional? {α : Type} (read : String → Option α) : Option String → Option (Option α)
  | none => some none
  | some text => (read text).map some

def outward? (text : Option String) : Option Nat :=
  match text with
  | none => some 0
  | some text => Kind.count? text

def query? (name : String) (s : Scan) : Option Query :=
  match name, s.words with
  | "sync", [] => (optional? position? (s.value? "at")).map .sync
  | "complete", [cursor, beginning] =>
    (position? cursor).map (.complete · beginning (s.has "local"))
  | "identifiers", [cursor] => (position? cursor).map (.identifiers · "")
  | "identifiers", [cursor, beginning] => (position? cursor).map (.identifiers · beginning)
  | "type", [cursor] => (position? cursor).map (.type · (s.value? "expr"))
  | "enclosing", [cursor] => do
    let cursor ← position? cursor
    let outward ← outward? (s.value? "outward")
    some (.enclosing cursor (s.value? "expr") outward)
  | "errors", [] => some .errors
  | "packages", [] => some .packages
  | "use", packages => some (.use packages)
  | "which", [name] => some (.which name (s.value? "ext"))
  | "which-ext", [ext] => some (.whichExt ext)
  | "phrase", [first, last] => do
    let first ← position? first
    let last ← position? last
    some (.phrase first last)
  | "reload", [] => some .reload
  | _, _ => none

/-- The values of an option on both sides of the query's name: those after it count, if any. -/
def preferInner (name : String) (outer inner : Scan) : List String :=
  if inner.has name then inner.values name else outer.values name

/-- Reads the words of a command line. What stands before the query's name is checked last. -/
def parse (words : List String) : Except UsageError Invocation := do
  let (pending, outer) ← scan outerShape words
  match outer.subcommand with
  | none => do
    let _ ← pending.settle outer
    .error .missingSubcommand
  | some (name, rest) =>
    let shape := queryShape name
    let (innerPending, inner) ← scan shape rest
    let inner ← shape.conclude innerPending inner
    let outer ← outerShape.conclude pending outer
    match outer.words, query? name inner with
    | [file], some query => .ok {
        config := (preferInner "config" outer inner).getLast?
        flags := preferInner "flag" outer inner
        ignoreWarnings := outer.has "ignore-warnings" || inner.has "ignore-warnings"
        file := file
        query := query }
    | _, _ => .error .missingSubcommand

end Invocation

end EditorBridge.CommandLine
