import EditorBridge.CommandLine.Invocation
import EditorBridge.Config.Basic
import EditorBridge.Journal.Filter
import EditorBridge.Journal.Occasion
import EditorBridge.Session.Listing
import EditorBridge.Session.Supervised

/-!
# Running a command line

A run reads the configuration and the source file, loads the project file that governs the source
file, asks the query, and ends the server. Loading the project file may fail without failing the
run. What a run says on its standard output is text with one record per line. On its standard
error it says what it noticed on the way, and at the end why it failed.
-/

namespace EditorBridge.CommandLine

open Journal (Notice)

inductive RunError where
  | config (e : ConfigError)
  | unreadable (path : String)
  | bridge (e : BridgeError)

def RunError.message : RunError → String
  | .config e => e.message
  | .unreadable path => "reading " ++ path
  | .bridge e => e.describe

/-- What a query prints: some text, and what stopped it then, if anything did. -/
structure Printout where
  text : String
  overflow : Option Overflow
deriving DecidableEq

namespace Printout

def ofText (text : String) : Printout := ⟨text, none⟩

/-- Prints some records, up to the first one that overflows. -/
def ofRecords : List (Except Overflow String) → Printout
  | [] => .ofText ""
  | .ok record :: records =>
    let rest := ofRecords records
    ⟨record ++ rest.text, rest.overflow⟩
  | .error overflow :: _ => ⟨"", some overflow⟩

end Printout

inductive Verdict where
  | success (output : String)
  | failure (e : RunError)
  /-- The command line is not understood. -/
  | usage (e : UsageError)
  /-- The run was stopped by an overflow, after it had printed something. -/
  | stopped (output : String) (overflow : Overflow)

namespace Verdict

def ofPrintout (p : Printout) : Verdict :=
  match p.overflow with
  | none => .success p.text
  | some overflow => .stopped p.text overflow

def exitCode : Verdict → Nat
  | .success _ => 0
  | .failure _ => 1
  | .usage _ => 2
  | .stopped _ _ => 101

def output : Verdict → String
  | .success output | .stopped output _ => output
  | .failure _ | .usage _ => ""

def complaint : Verdict → String
  | .success _ => ""
  | .failure e => "Error: " ++ e.message ++ "\n"
  | .usage e => "error: " ++ e.message ++ "\n"
  | .stopped _ overflow => overflow.message ++ "\n"

end Verdict

/-- What a run leaves behind. -/
structure Report where
  notices : List Notice
  verdict : Verdict

namespace Report

/-- A report with more notices before its own. -/
def after (r : Report) (notices : List Notice) : Report :=
  { r with notices := notices ++ r.notices }

/-- The report with the notices that a filter lets through. -/
def filtered (r : Report) (filter : Journal.Filter) : Report :=
  { r with notices := r.notices.filter filter.admits }

def standardError (r : Report) : String :=
  String.join (r.notices.map Notice.render) ++ r.verdict.complaint

end Report

/-- The configuration of a run: the file that is named, or else the user's, or else the default,
with the flags of the command line added. -/
def configure (s : Surroundings) (i : Invocation) : Except ConfigError Config := do
  let base ← match i.config with
    | some path => Config.loadFrom s (Path.ofString path)
    | none => (Config.load s).map (·.getD Config.default)
  pure { base with
    flags := base.flags ++ i.flags
    ignoreWarnings := base.ignoreWarnings || i.ignoreWarnings }

def readBuffer (s : Surroundings) (file : String) : Option Buffer :=
  (s.readText? (Path.ofString file)).map (Buffer.ofText 1 file)

def sourceDirectory? (s : Surroundings) (file : String) : Option Path :=
  (s.files.canonical? s.cwd (Path.ofString file)).bind Path.parent?

def syncMessage (buffer : Buffer) (r : SyncReport) : String :=
  let mode := match r.mode with
    | .full => "Full"
    | .incremental => "Incremental"
  mode ++ " sync of " ++ buffer.basename ++ ": " ++ toString r.linesSent ++
    " lines sent, server at " ++ r.position.render

section

variable {σ : Type} [Transport σ]

/-- The next scopes outward, at most so many. -/
def nextScopes : Nat → Exchange (Session σ) (List ScopeView)
  | 0 => pure []
  | n + 1 => do
    match ← Session.nextScope with
    | none => pure []
    | some view =>
      let rest ← nextScopes n
      pure (view :: rest)

/-- Asks a query and prints the answer. -/
def ask (config : Config) (buffer : Buffer) : Query → Exchange (Session σ) Printout
  | .sync at? => do
    let report ← match at? with
      | some p => Session.syncTo buffer p
      | none => Session.syncAll buffer
    pure (.ofText (Listing.line (syncMessage buffer report)))
  | .complete cursor beginning inPlace => do
    let found ← if inPlace then Session.completeAt buffer cursor beginning
      else Session.complete buffer cursor beginning
    pure (.ofText (Listing.menu (found.map Completion.menuItem)))
  | .identifiers cursor beginning => do
    let found ← Session.completeAt buffer cursor beginning
    pure (.ofText (Listing.candidates (found.map Completion.candidate)))
  | .type cursor expr => do
    let info ← Session.typeAt buffer cursor expr
    pure (.ofText (Listing.line info.render))
  | .enclosing cursor expr outward => do
    match ← Session.typeEnclosing buffer cursor expr with
    | .fallback info => pure (.ofText (Listing.line info.render))
    | .scope view =>
      let rest ← nextScopes outward
      pure (.ofRecords ((view :: rest).map Listing.scope))
  | .errors => do
    let _ ← Session.syncAll buffer
    let found ← Session.errors
    let locations := Diagnostic.locations config.ignoreWarnings found
    pure (.ofRecords [Listing.locations <$> locations])
  | .packages => do
    let names ← Session.listPackages
    pure (.ofText (Listing.names names))
  | .use packages => do
    Session.usePackages packages
    pure (.ofText "")
  | .which name ext => do
    let path ← Session.whichFile name ext
    pure (.ofText (Listing.line path))
  | .whichExt ext => do
    let files ← Session.whichWithExt ext
    pure (.ofText (Listing.names files))
  | .phrase first last => do
    match ← Session.selectPhrase buffer first last with
    | some span => pure (.ofText (Listing.line span.render))
    | none => pure (.ofText (Listing.line "no phrase"))
  | .reload => do
    Session.refresh
    pure (.ofText "")

end

section

variable {ω : Type} [Host ω]

/-- A session of a run: the server is supervised, and what is sent to it is recorded. -/
abbrev RunSession (ω : Type) := Session (Recorded (Supervisor ω))

/-- What is noticed of the commands of a session. -/
def noticesOf (session : RunSession ω) : List Notice :=
  let supervisor := session.server.inner
  session.server.history.flatMap (Notice.ofEntry supervisor.executable supervisor.flags)

/-- Loads the project file that governs the source file, if there is one, and answers what was
noticed. A failure is only noticed, but an overflow is not. -/
def prepare (s : Surroundings) (config : Config) (file : String) (session : RunSession ω) :
    Except Overflow (List Notice) × RunSession ω :=
  match sourceDirectory? s file with
  | none => (.ok [], session)
  | some dir =>
    let (result, session) :=
      (Session.loadProject (s.files.isFile s.cwd) dir config.searchDepth).run session
    let notices := match result with
      | .ok (.error overflow) => .error overflow
      | .ok (.ok none) => .ok (noticesOf session ++ [.noProject dir config.searchDepth])
      | .ok (.ok (some path)) => .ok (noticesOf session ++ Notice.projectLoaded path)
      | .error e => .ok (noticesOf session ++ [.projectFailed e])
    (notices, { session with server := session.server.forget })

/-- Asks the query and ends the server. -/
def consult (config : Config) (buffer : Buffer) (query : Query) (session : RunSession ω) :
    Report × ω :=
  let (answer, session) := (ask config buffer query).run session
  let verdict := match answer with
    | .ok printout => .ofPrintout printout
    | .error e => .failure (.bridge e)
  (⟨noticesOf session, verdict⟩, session.server.inner.terminate.host)

/-- Converses with a server: loads the project file, asks the query, and ends the server. The query
is not asked if the search for the project file overflows. -/
def converse (s : Surroundings) (config : Config) (buffer : Buffer) (query : Query) (host : ω) :
    Report × ω :=
  let supervisor := Supervisor.ofHost host config.executable (config.expandedFlags s.env)
  let session := Session.ofServer (Recorded.ofTransport supervisor)
  match prepare s config buffer.name session with
  | (.error overflow, session) => (⟨[], .stopped "" overflow⟩, session.server.inner.terminate.host)
  | (.ok notices, session) =>
    let (report, host) := consult config buffer query session
    (report.after notices, host)

/-- Runs an invocation, and answers what it leaves behind and what the host has become. -/
def runInvocation (s : Surroundings) (i : Invocation) (host : ω) : Report × ω :=
  match configure s i with
  | .error e => (⟨[.ofConfigError e], .failure (.config e)⟩, host)
  | .ok config =>
    match readBuffer s i.file with
    | none => (⟨[], .failure (.unreadable i.file)⟩, host)
    | some buffer => converse s config buffer i.query host

/-- Runs a command line. Of the notices those are kept that the user wants to see. -/
def run (s : Surroundings) (words : List String) (host : ω) : Report × ω :=
  match Invocation.parse words with
  | .error e => (⟨[], .usage e⟩, host)
  | .ok i =>
    let (report, host) := runInvocation s i host
    (report.filtered (.ofEnvironment s.env), host)

end

end EditorBridge.CommandLine
