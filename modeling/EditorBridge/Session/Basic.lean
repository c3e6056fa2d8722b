import EditorBridge.Answer.Completion
import EditorBridge.Answer.Diagnostic
import EditorBridge.Files.Project
import EditorBridge.Scopes.Navigator
import EditorBridge.Sync.Tracker

/-!
# Sessions

A session is what an editor talks to: a server, what is known about the server's copy of the
buffer, and the scopes found by the last query. A query that depends on a buffer brings the
server's copy up to date first.
-/

namespace EditorBridge

/-- A server, what is known about its copy, and the enclosing scopes last found. -/
structure Session (σ : Type) extends Tracked σ where
  navigator : Navigator

/-- The answer to a question for a type. -/
structure TypeInfo where
  /-- The expression, if the server answered for it. -/
  expression : Option String
  type : String
  /-- Whether another question was answered than the one that was asked. -/
  approximate : Bool
deriving DecidableEq, Inhabited

def TypeInfo.render (i : TypeInfo) : String :=
  (if i.approximate then "(approx) " else "") ++
    match i.expression with
    | some e => e ++ " : " ++ i.type
    | none => i.type

inductive EnclosingAnswer where
  | scope (view : ScopeView)
  /-- There are no scopes, but a type. -/
  | fallback (info : TypeInfo)

/-- The text of a type: a string, or the field `type` of an object. -/
def Json.typeText : Json → String
  | .string s => s
  | .object fields =>
    match fields.lookup "type" with
    | some v => v.asText
    | none => (Json.object fields).render
  | v => v.render

namespace Session

variable {σ α : Type}

/-- A session with a server that nothing has been told. -/
def ofServer (server : σ) : Session σ := ⟨⟨server, .initial⟩, .empty⟩

/-- Lets an exchange act on the server and on what is known about it. -/
def onTracked (x : Exchange (Tracked σ) α) : Exchange (Session σ) α :=
  x.zoom Session.toTracked fun tracked s => { s with toTracked := tracked }

/-- Lets an exchange act on the server. -/
def onServer (x : Exchange σ α) : Exchange (Session σ) α := onTracked (Sync.onServer x)

/-- Changes the scopes that can be walked through. -/
def navigate (f : Navigator → Navigator) : Exchange (Session σ) Unit :=
  Exchange.change fun s => { s with navigator := f s.navigator }

variable [Transport σ]

/-! ## Plain commands -/

def refresh : Exchange (Session σ) Unit := onServer (execute Command.refresh)

def reset (name : Option String) : Exchange (Session σ) Position := onTracked (Sync.reset name)

/-- Tells the server one chunk and says whether it is satisfied. -/
def tell (kind : TellKind) (lines : List String) : Exchange (Session σ) Bool :=
  onServer (Feed.tell kind lines)

def seekBefore (p : Position) : Exchange (Session σ) Position :=
  onServer (request (Command.seekBefore p) Position.ofJson?)

def seekExact (p : Position) : Exchange (Session σ) Position :=
  onServer (request (Command.seekExact p) Position.ofJson?)

def seekScope : Exchange (Session σ) Position :=
  onServer (request Command.seekScope Position.ofJson?)

def seekEnd : Exchange (Session σ) Position :=
  onServer (request Command.seekEnd Position.ofJson?)

/-! ## Synchronization -/

/-- Brings the server's copy up to the line of a position, and its cursor to the position. The
scopes of another buffer are forgotten. -/
def syncTo (buffer : Buffer) (target : Position) : Exchange (Session σ) SyncReport := do
  let switched ← Exchange.look fun s => s.tracker.isSwitch buffer.id
  if switched then navigate fun _ => .empty
  onTracked (Sync.syncTo buffer target)

def syncAll (buffer : Buffer) : Exchange (Session σ) SyncReport :=
  syncTo buffer (Position.lineStart (max buffer.lineCount 1))

/-! ## Queries -/

/-- The candidates that complete the beginning of a name at the cursor. -/
def complete (buffer : Buffer) (cursor : Position) (beginning : String) :
    Exchange (Session σ) (List Completion) := do
  let _ ← syncTo buffer cursor
  onServer (request (Command.complete beginning none) (Json.listOf? Completion.ofJson?))

/-- The candidates that complete the beginning of a name where the cursor is in the text. -/
def completeAt (buffer : Buffer) (cursor : Position) (beginning : String) :
    Exchange (Session σ) (List Completion) := do
  let _ ← syncTo buffer cursor
  onServer (request (Command.complete beginning (some cursor)) (Json.listOf? Completion.ofJson?))

/-- The diagnostics of what the server holds. -/
def errors : Exchange (Session σ) (List Diagnostic) :=
  onServer (request Command.errors (Json.listOf? Diagnostic.ofJson?))

/-- Asks for the type of an expression, and if the server rejects that or there is no expression,
for the type of what stands at the cursor. -/
def queryType (cursor : Position) (expr : Option String) (approximate : Bool) :
    Exchange σ TypeInfo := do
  let answer ← match expr with
    | none => pure none
    | some _ => (request (Command.typeAt expr cursor) some).unlessRejected
  match answer with
  | some payload => pure ⟨expr, payload.typeText, approximate⟩
  | none =>
    let payload ← request (Command.typeAt none cursor) some
    pure ⟨none, payload.typeText, approximate || expr.isSome⟩

/-- The type of an expression, or of what stands at the cursor. -/
def typeAt (buffer : Buffer) (cursor : Position) (expr : Option String) :
    Exchange (Session σ) TypeInfo := do
  let _ ← syncTo buffer cursor
  onServer (queryType cursor expr false)

/-- Asks for the scopes around the cursor. A rejection means that there are none. -/
def queryScopes (cursor : Position) : Exchange σ (List Scope) := do
  let command := Command.typeEnclosing cursor
  match ← (request command some).unlessRejected with
  | none => pure []
  | some payload =>
    match Scope.listOfJson? payload with
    | some scopes => pure scopes
    | none => throw (.unexpectedPayload command.label)

/-- The innermost scope around the cursor; the others can be walked through from there. Without
scopes the answer is an approximate type. -/
def typeEnclosing (buffer : Buffer) (cursor : Position) (expr : Option String) :
    Exchange (Session σ) EnclosingAnswer := do
  navigate fun _ => .empty
  let _ ← syncTo buffer cursor
  let scopes ← onServer (queryScopes cursor)
  let navigator := (Navigator.ofScopes scopes).forward
  navigate fun _ => navigator
  match navigator.view? with
  | some view => pure (.scope view)
  | none =>
    let info ← onServer (queryType cursor expr true)
    pure (.fallback info)

/-- One step outward through the scopes. -/
def nextScope : Exchange (Session σ) (Option ScopeView) := do
  navigate Navigator.forward
  Exchange.look fun s => s.navigator.view?

/-- One step inward through the scopes. -/
def previousScope : Exchange (Session σ) (Option ScopeView) := do
  navigate Navigator.backward
  Exchange.look fun s => s.navigator.view?

def boundary : Exchange (Session σ) (Option Span) :=
  onServer (request Command.boundary (Json.nullable? Span.ofPair?))

/-- The smallest span of whole phrases that covers two positions. -/
def selectPhrase (buffer : Buffer) (first last : Position) :
    Exchange (Session σ) (Option Span) := do
  let _ ← syncTo buffer last
  let _ ← seekExact last
  match ← boundary with
  | none => pure none
  | some atLast =>
    if first = last then pure (some atLast)
    else
      let _ ← seekExact first
      match ← boundary with
      | some atFirst => pure (some (atLast.union atFirst))
      | none => pure (some atLast)

/-! ## Files and packages -/

/-- The source file of a name, to which an extension may be added. -/
def whichFile (name : String) (ext : Option String) : Exchange (Session σ) String :=
  let name := match ext with
    | some ext => name ++ "." ++ ext
    | none => name
  onServer (request (Command.whichPath name) Json.text?)

/-- The source files with an extension, in order and each of them once. -/
def whichWithExt (ext : String) : Exchange (Session σ) (List String) := do
  let files ← onServer (request (Command.whichWithExt ext) (Json.listOf? Json.text?))
  pure (files.mergeSort fun a b => decide (a ≤ b)).eraseReps

def usePackages (packages : List String) : Exchange (Session σ) Unit :=
  onServer (execute (Command.usePackages packages))

def listPackages : Exchange (Session σ) (List String) :=
  onServer (request Command.listPackages (Json.listOf? Json.text?))

/-- Loads the nearest project file at or above a directory, and resets the server so that it
takes effect. Answers the file that was loaded, or that the search overflowed. -/
def loadProject (isFile : Path → Bool) (dir : Path) (depth : Nat) :
    Exchange (Session σ) (Except Overflow (Option Path)) :=
  match Project.search isFile dir depth with
  | .error overflow => pure (.error overflow)
  | .ok none => pure (.ok none)
  | .ok (some path) => do
    onServer (execute (Command.loadProject path.render))
    let _ ← reset none
    pure (.ok (some path))

end Session

end EditorBridge
