import EditorBridge.Proofs.CommandLine.Asking
import EditorBridge.Proofs.Files.Bare
import EditorBridge.Proofs.Supervisor.Answering

/-!
# Loading the project file

A run loads the project file of its source file before it asks the query. If this fails the run
goes on, and so the run should end as it does in surroundings without project files.

The main statement, `verdict_bare`, compares the two runs for a server that goes by the command.
They end with the same exit code and the same output in all cases. They end with the same error as
well, unless the server cannot be started and there is a project file: then loading it has used up
the one error that says why, and the query is told that a restart is required. A search that
overflows stops both runs alike.
-/

namespace EditorBridge

open Transport (next entry)

/-- The commands that load a project file. -/
def Session.loads : Option Path → List Command
  | none => []
  | some path => [Command.loadProject path.render, Command.reset none]

/-- If nothing is known about the server's copy, loading a project changes nothing but the server.
If the server accepts what it is sent, it is sent all the commands. -/
theorem Session.run_loadProject {σ : Type} [Transport σ] (isFile : Path → Bool) (dir : Path)
    (depth : Nat) {s : Session σ} (hmark : s.tracker.mark = none) :
    ∃ es server, Talk s.server es server ∧
      es.map Entry.command <+: loads (Project.search isFile dir depth).toOption.join ∧
      ((∀ e ∈ es, ∃ payload, e.answer = .ok (.accepted payload)) →
        es.map Entry.command = loads (Project.search isFile dir depth).toOption.join) ∧
      ((loadProject isFile dir depth).run s).2 = { s with server := server } := by
  have hinvalidate : s.tracker.invalidate = s.tracker := by
    rw [Tracker.invalidate, ← hmark]
  rw [loadProject]
  rcases Project.search isFile dir depth with overflow | _ | path
  · exact ⟨[], s.server, .nil _, List.prefix_refl _, fun _ => rfl, rfl⟩
  · exact ⟨[], s.server, .nil _, List.prefix_refl _, fun _ => rfl, rfl⟩
  · have htalk := Talk.single s.server (Command.loadProject path.render)
    simp only
    rw [Exchange.run_bind, onServer, onTracked, Exchange.run_zoom, Sync.onServer,
      Exchange.run_zoom, execute, run_request]
    cases hload : (entry s.server (Command.loadProject path.render)).reading fun _ => some () with
    | error c =>
      refine ⟨_, _, htalk, List.prefix_append [_] [Command.reset none], fun haccepted => ?_, rfl⟩
      obtain ⟨payload, hanswer⟩ := haccepted _ List.mem_cons_self
      rw [Entry.reading, hanswer] at hload
      cases hload
    | ok u =>
      have hreset := run_reset none ({ s with
        server := next s.server (Command.loadProject path.render) } : Session σ)
      simp only
      rw [Exchange.run_bind]
      rcases h : (reset none).run ({ s with
        server := next s.server (Command.loadProject path.render) } : Session σ) with
        ⟨c | p, s'⟩ <;> rw [h] at hreset <;> subst hreset <;>
        exact ⟨_, _, htalk.append (Talk.single _ (Command.reset none)), List.prefix_refl _,
          fun _ => rfl, by simp only [hinvalidate, Exchange.run_pure]⟩

/-- If the load itself fails, nothing more is sent. -/
theorem Session.run_loadProject_of_error {σ : Type} [Transport σ] {isFile : Path → Bool}
    {dir : Path} {depth : Nat} {path : Path}
    (hsearch : Project.search isFile dir depth = .ok (some path)) {s : Session σ} {e : BridgeError}
    (h : (entry s.server (Command.loadProject path.render)).answer = .error e) :
    (loadProject isFile dir depth).run s =
      (.error e, { s with server := next s.server (Command.loadProject path.render) }) := by
  rw [loadProject, hsearch]
  simp only
  rw [Exchange.run_bind, onServer, onTracked, Exchange.run_zoom, Sync.onServer, Exchange.run_zoom,
    execute, run_request, Entry.reading, h]

/-- Only the search can overflow. -/
theorem Session.run_loadProject_ne {σ : Type} [Transport σ] {isFile : Path → Bool} {dir : Path}
    {depth : Nat} {found : Option Path} (hsearch : Project.search isFile dir depth = .ok found)
    (s : Session σ) (overflow : Overflow) :
    ((loadProject isFile dir depth).run s).1 ≠ .ok (.error overflow) := by
  rw [loadProject, hsearch]
  cases found with
  | none => exact fun h => nomatch h
  | some path =>
    simp only
    rw [Exchange.run_bind]
    rcases (onServer (execute (Command.loadProject path.render))).run s with ⟨c | u, s'⟩
    · exact fun h => nomatch h
    · simp only
      rw [Exchange.run_bind]
      rcases (reset none).run s' with ⟨c | p, s''⟩ <;> exact fun h => nomatch h

namespace CommandLine

variable {ω : Type} [Host ω]

/-- The search for the project file that governs a source file. -/
def projectSearch (s : Surroundings) (config : Config) (file : String) :
    Except Overflow (Option Path) :=
  match sourceDirectory? s file with
  | none => .ok none
  | some dir => Project.search (s.files.isFile s.cwd) dir config.searchDepth

/-- The project file that governs a source file. -/
def projectFile? (s : Surroundings) (config : Config) (file : String) : Option Path :=
  (projectSearch s config file).toOption.join

/-- The session of a run before it loads a project file. -/
def opened (s : Surroundings) (config : Config) (host : ω) : RunSession ω :=
  .ofServer (.ofTransport (.ofHost host config.executable (config.expandedFlags s.env)))

def verdictOf : Except BridgeError Printout → Verdict
  | .ok printout => .ofPrintout printout
  | .error e => .failure (.bridge e)

/-- A run is stopped before it says anything if the search overflows. -/
theorem prepare_of_error {s : Surroundings} {config : Config} {file : String} {overflow : Overflow}
    (h : projectSearch s config file = .error overflow) (session : RunSession ω) :
    (prepare s config file session).1 = .error overflow := by
  rw [projectSearch] at h
  rw [prepare]
  cases hdir : sourceDirectory? s file with
  | none =>
    rw [hdir] at h
    cases h
  | some dir =>
    rw [hdir] at h
    simp only [Session.loadProject, h]
    rfl

theorem prepare_of_ok {s : Surroundings} {config : Config} {file : String} {found : Option Path}
    (h : projectSearch s config file = .ok found) (session : RunSession ω) :
    ∃ notices, (prepare s config file session).1 = .ok notices := by
  rw [projectSearch] at h
  rw [prepare]
  cases hdir : sourceDirectory? s file with
  | none => exact ⟨_, rfl⟩
  | some dir =>
    rw [hdir] at h
    have hne := Session.run_loadProject_ne h session
    rcases hrun : (Session.loadProject (s.files.isFile s.cwd) dir config.searchDepth).run session
      with ⟨e | overflow | _ | path, session'⟩ <;> simp only [hrun]
    · exact ⟨_, rfl⟩
    · rw [hrun] at hne
      exact absurd rfl (hne overflow)
    · exact ⟨_, rfl⟩
    · exact ⟨_, rfl⟩

/-- What a run does after the project file has been loaded hangs on whether the search came to an
end. -/
theorem converse_eq (s : Surroundings) (config : Config) (buffer : Buffer) (query : Query)
    (host : ω) :
    converse s config buffer query host =
      let prepared := prepare s config buffer.name (opened s config host)
      match prepared.1 with
      | .error overflow =>
        (⟨[], .stopped "" overflow⟩, prepared.2.server.inner.terminate.host)
      | .ok notices =>
        ((consult config buffer query prepared.2).1.after notices,
          (consult config buffer query prepared.2).2) := by
  rcases hrun : prepare s config buffer.name (opened s config host) with
    ⟨overflow | notices, session⟩
  · rw [opened] at hrun
    simp only [converse, hrun]
  · rw [opened] at hrun
    simp only [converse, hrun]

theorem converse_of_ok {s : Surroundings} {config : Config} {buffer : Buffer}
    {found : Option Path} (h : projectSearch s config buffer.name = .ok found) (query : Query)
    (host : ω) :
    ∃ notices, converse s config buffer query host =
      ((consult config buffer query
          (prepare s config buffer.name (opened s config host)).2).1.after notices,
        (consult config buffer query
          (prepare s config buffer.name (opened s config host)).2).2) := by
  obtain ⟨notices, hnotices⟩ := prepare_of_ok h (opened s config host)
  refine ⟨notices, ?_⟩
  rw [converse_eq]
  simp only [hnotices]

theorem verdict_converse_of_error {s : Surroundings} {config : Config} {buffer : Buffer}
    {overflow : Overflow} (h : projectSearch s config buffer.name = .error overflow)
    (query : Query) (host : ω) :
    (converse s config buffer query host).1.verdict = .stopped "" overflow := by
  rw [converse_eq]
  simp only [prepare_of_error h]

/-- Otherwise the verdict is what the query answers after the project file has been loaded. -/
theorem verdict_converse {s : Surroundings} {config : Config} {buffer : Buffer}
    {found : Option Path} (h : projectSearch s config buffer.name = .ok found) (query : Query)
    (host : ω) :
    (converse s config buffer query host).1.verdict =
      verdictOf ((ask config buffer query).run
        (prepare s config buffer.name (opened s config host)).2).1 := by
  obtain ⟨notices, hconverse⟩ := converse_of_ok h query host
  rw [hconverse]
  rfl

theorem name_of_readBuffer {s : Surroundings} {file : String} {buffer : Buffer}
    (h : readBuffer s file = some buffer) : buffer.name = file := by
  obtain ⟨text, -, rfl⟩ := Option.map_eq_some_iff.mp h
  rfl

/-- A command line names an invocation, with a configuration and a source file that can be read. The
search for the project file does not overflow. -/
structure Understood (s : Surroundings) (words : List String) (i : Invocation) (config : Config)
    (buffer : Buffer) : Prop where
  parsed : Invocation.parse words = .ok i
  configured : configure s i = .ok config
  readable : readBuffer s i.file = some buffer
  searched : ∃ found, projectSearch s config i.file = .ok found

section

variable {s : Surroundings} {words : List String} {i : Invocation} {config : Config}
  {buffer : Buffer}

/-- A command line that is understood ends as its query does. -/
theorem Understood.verdict_run (h : Understood s words i config buffer) (host : ω) :
    (run s words host).1.verdict =
      verdictOf ((ask config buffer i.query).run
        (prepare s config buffer.name (opened s config host)).2).1 := by
  obtain ⟨found, hsearch⟩ := h.searched
  rw [← name_of_readBuffer h.readable] at hsearch
  rw [run, h.parsed, ← verdict_converse hsearch]
  simp only [runInvocation, h.configured, h.readable]
  rfl

end

/-- Loading changes nothing but the server, to which it sends the commands that load the project
file. -/
theorem prepare_cases (s : Surroundings) (config : Config) (file : String) (host : ω) :
    ∃ es server, Talk (opened s config host).server es server ∧
      es.map Entry.command <+: Session.loads (projectFile? s config file) ∧
      ((∀ e ∈ es, ∃ payload, e.answer = .ok (.accepted payload)) →
        es.map Entry.command = Session.loads (projectFile? s config file)) ∧
      ∃ entries, (prepare s config file (opened s config host)).2 =
        ⟨⟨⟨server.inner, entries⟩, .initial⟩, .empty⟩ := by
  rw [prepare, projectFile?, projectSearch]
  cases sourceDirectory? s file with
  | none => exact ⟨[], _, .nil _, List.prefix_refl _, fun _ => rfl, _, rfl⟩
  | some dir =>
    obtain ⟨es, server, htalk, hbegun, hall, hstate⟩ := Session.run_loadProject
      (s.files.isFile s.cwd) dir config.searchDepth (s := opened s config host) rfl
    refine ⟨es, server, htalk, hbegun, hall, [], ?_⟩
    rcases hrun : (Session.loadProject (s.files.isFile s.cwd) dir config.searchDepth).run
      (opened s config host) with ⟨r, session⟩
    rw [hrun] at hstate
    simp only [hrun, hstate]
    rfl

variable {serves : ω → ProcessId → Prop} {refusal? : String → List String → Option StartError}
  {reply : String → Option (List UInt8)}

open Supervisor (Ready)

/-! ## A server that can be started -/

theorem ready_prepare (hserver : AnswersBy serves refusal? reply) {s : Surroundings}
    {config : Config} (hstart : refusal? config.executable (config.expandedFlags s.env) = none)
    (file : String) (host : ω) :
    ∃ r : Recorded (Supervisor ω), Ready refusal? r.inner ∧
      (prepare s config file (opened s config host)).2 = ⟨⟨r, .initial⟩, .empty⟩ := by
  obtain ⟨es, server, htalk, -, -, entries, hstate⟩ := prepare_cases s config file host
  have hkeeps : ∀ (r : Recorded (Supervisor ω)) command, Ready refusal? r.inner →
      Ready refusal? (next r command).inner :=
    fun r command hr => (hr.call hserver command).2
  have hready := htalk.keeps (P := fun r => Ready refusal? r.inner) hkeeps
    (Supervisor.ready_ofHost hstart host)
  exact ⟨⟨server.inner, entries⟩, hready, hstate⟩

/-- The answer to a query does not depend on what was loaded before, nor whether that failed. -/
theorem verdict_converse_of_startable (hserver : AnswersBy serves refusal? reply)
    {s s' : Surroundings} (henv : s'.env = s.env) {config : Config}
    (hstart : refusal? config.executable (config.expandedFlags s.env) = none) {buffer : Buffer}
    {found found' : Option Path} (hsearch : projectSearch s config buffer.name = .ok found)
    (hsearch' : projectSearch s' config buffer.name = .ok found') (query : Query)
    (host host' : ω) :
    (converse s config buffer query host).1.verdict =
      (converse s' config buffer query host').1.verdict := by
  obtain ⟨r, hr, hsession⟩ := ready_prepare hserver hstart buffer.name host
  obtain ⟨r', hr', hsession'⟩ :=
    ready_prepare hserver (s := s') (henv ▸ hstart) buffer.name host'
  have hblind := blind_ask (Supervisor.indistinct_ready hserver).recorded config buffer query
  rw [verdict_converse hsearch, verdict_converse hsearch', hsession, hsession']
  exact congrArg verdictOf
    (hblind ⟨⟨r, .initial⟩, .empty⟩ ⟨⟨r', .initial⟩, .empty⟩ ⟨⟨⟨⟨hr, hr'⟩, rfl⟩, rfl, rfl⟩, rfl⟩).1

/-! ## A server that cannot be started -/

/-- Without a project file nothing is sent before the query. -/
theorem prepare_of_none {s : Surroundings} {config : Config} {file : String}
    (hnone : projectSearch s config file = .ok none) (host : ω) :
    ∃ entries, (prepare s config file (opened s config host)).2 =
      ⟨⟨⟨(opened s config host).server.inner, entries⟩, .initial⟩, .empty⟩ := by
  rw [projectSearch] at hnone
  rw [prepare]
  cases hdir : sourceDirectory? s file with
  | none => exact ⟨_, rfl⟩
  | some dir =>
    simp only [hdir] at hnone
    have hload : (Session.loadProject (s.files.isFile s.cwd) dir config.searchDepth).run
        (opened s config host) = (.ok (.ok none), opened s config host) := by
      rw [Session.loadProject, hnone]
      rfl
    refine ⟨[], ?_⟩
    simp only [hload]
    rfl

/-- With a project file, the failure of the start is spent on loading it. -/
theorem prepare_of_some (hserver : AnswersBy serves refusal? reply) {s : Surroundings}
    {config : Config} {file : String} {path : Path} {cause : StartError}
    (hcause : refusal? config.executable (config.expandedFlags s.env) = some cause)
    (hsome : projectSearch s config file = .ok (some path)) (host : ω) :
    ∃ r : Recorded (Supervisor ω), r.inner.process = none ∧ r.inner.startFailed = true ∧
      (prepare s config file (opened s config host)).2 = ⟨⟨r, .initial⟩, .empty⟩ := by
  rw [projectSearch] at hsome
  rw [prepare]
  cases hdir : sourceDirectory? s file with
  | none =>
    rw [hdir] at hsome
    cases hsome
  | some dir =>
    rw [hdir] at hsome
    obtain ⟨host', hcall⟩ := Supervisor.run_call_refused hserver
      (s := (opened s config host).server.inner) hcause rfl rfl (Command.loadProject path.render)
    have hload := Session.run_loadProject_of_error hsome (s := opened s config host)
      (congrArg Prod.fst hcall)
    refine ⟨⟨((Supervisor.call (Command.loadProject path.render)).run
      (opened s config host).server.inner).2, []⟩, ?_, ?_, ?_⟩
    · exact congrArg (fun run => run.2.process) hcall
    · exact congrArg (fun run => run.2.startFailed) hcall
    · simp only [hload]
      rfl

theorem verdict_converse_of_none (hserver : AnswersBy serves refusal? reply) {s : Surroundings}
    {config : Config} {cause : StartError}
    (hcause : refusal? config.executable (config.expandedFlags s.env) = some cause)
    {buffer : Buffer} (hnone : projectSearch s config buffer.name = .ok none) (query : Query)
    (host : ω) :
    (converse s config buffer query host).1.verdict =
      .failure (.bridge (.spawn config.executable cause)) := by
  obtain ⟨entries, hsession⟩ := prepare_of_none hnone host
  have hfail : AllFail (⟨(opened s config host).server.inner, entries⟩ : Recorded (Supervisor ω))
      (.spawn config.executable cause) := by
    intro command
    obtain ⟨host', hcall⟩ := Supervisor.run_call_refused hserver
      (s := (opened s config host).server.inner) hcause rfl rfl command
    exact congrArg Prod.fst hcall
  rw [verdict_converse hnone, hsession, sends_ask config buffer query _ _ hfail]
  rfl

theorem verdict_converse_of_some (hserver : AnswersBy serves refusal? reply) {s : Surroundings}
    {config : Config} {cause : StartError} {path : Path}
    (hcause : refusal? config.executable (config.expandedFlags s.env) = some cause)
    {buffer : Buffer} (hsome : projectSearch s config buffer.name = .ok (some path))
    (query : Query) (host : ω) :
    (converse s config buffer query host).1.verdict = .failure (.bridge .restartRequired) := by
  obtain ⟨r, hp, hf, hsession⟩ := prepare_of_some hserver hcause hsome host
  have hfail : AllFail r .restartRequired :=
    fun command => congrArg Prod.fst (Supervisor.run_call_latched hp hf command)
  rw [verdict_converse hsome, hsession, sends_ask config buffer query _ _ hfail]
  rfl

/-! ## Surroundings without project files -/

section

variable {s : Surroundings} {i : Invocation}

theorem loadFrom_bare {path : Path} (h : ¬ s.LeadsToProject path) :
    Config.loadFrom s.bare path = Config.loadFrom s path := by
  rw [Config.loadFrom, Config.loadFrom, Surroundings.readText?_bare h]

theorem load_bare (s : Surroundings) : Config.load s.bare = Config.load s := by
  have hpath : s.bare.configPath? = s.configPath? := rfl
  rw [Config.load, Config.load, hpath]
  cases h : s.configPath? with
  | none => rfl
  | some path =>
    have hproject := Surroundings.not_leadsToProject_configPath h
    simp only [Surroundings.exists?_bare hproject, loadFrom_bare hproject]

theorem configure_bare
    (h : ∀ path, i.config = some path → ¬ s.LeadsToProject (Path.ofString path)) :
    configure s.bare i = configure s i := by
  unfold configure
  cases hpath : i.config with
  | none => simp only [load_bare]
  | some path => simp only [loadFrom_bare (h path hpath)]

theorem readBuffer_bare {file : String} (h : ¬ s.LeadsToProject (Path.ofString file)) :
    readBuffer s.bare file = readBuffer s file := by
  rw [readBuffer, readBuffer, Surroundings.readText?_bare h]

theorem sourceDirectory?_bare {file : String} (h : ¬ s.LeadsToProject (Path.ofString file)) :
    sourceDirectory? s.bare file = sourceDirectory? s file :=
  congrArg (Option.bind · Path.parent?) (FileTree.canonical?_bare h)

/-- Without project files none is found, and a search overflows just as it does with them. -/
theorem projectSearch_bare {file : String} (h : ¬ s.LeadsToProject (Path.ofString file))
    (config : Config) :
    projectSearch s.bare config file = (projectSearch s config file).map fun _ => none := by
  rw [projectSearch, projectSearch, sourceDirectory?_bare h]
  cases sourceDirectory? s file with
  | none => rfl
  | some dir => exact Project.search_bare s.files s.cwd dir config.searchDepth

/-- An invocation is configured, its source file is read and its project file searched for, but its
server cannot be started. -/
structure CannotStart (refusal? : String → List String → Option StartError) (s : Surroundings)
    (i : Invocation) (config : Config) (cause : StartError) : Prop where
  configured : configure s i = .ok config
  readable : (readBuffer s i.file).isSome = true
  searched : ∃ found, projectSearch s config i.file = .ok found
  refused : refusal? config.executable (config.expandedFlags s.env) = some cause

theorem CannotStart.unique {config config' : Config} {cause cause' : StartError}
    (h : CannotStart refusal? s i config cause) (h' : CannotStart refusal? s i config' cause') :
    config = config' ∧ cause = cause' := by
  obtain rfl : config = config' := Except.ok.inj (h.configured.symm.trans h'.configured)
  exact ⟨rfl, Option.some.inj (h.refused.symm.trans h'.refused)⟩

/-- An invocation is configured and its source file is read, but the search for its project file
overflows. -/
structure SearchOverflows (s : Surroundings) (i : Invocation) (overflow : Overflow) : Prop where
  readable : (readBuffer s i.file).isSome = true
  overflows : ∃ config, configure s i = .ok config ∧
    projectSearch s config i.file = .error overflow

/-- With and without project files a run converses with a server, with the same configuration and
about the same buffer, or it ends in the same way before that. -/
theorem runInvocation_cases (hfile : ¬ s.LeadsToProject (Path.ofString i.file))
    (hconfig : ∀ path, i.config = some path → ¬ s.LeadsToProject (Path.ofString path))
    (host host' : ω) :
    ((runInvocation s i host).1 = (runInvocation s.bare i host').1 ∧
      ∀ config, configure s i = .ok config → readBuffer s i.file = none) ∨
    ∃ config buffer, configure s i = .ok config ∧ readBuffer s i.file = some buffer ∧
      runInvocation s i host = converse s config buffer i.query host ∧
      runInvocation s.bare i host' = converse s.bare config buffer i.query host' := by
  simp only [runInvocation, configure_bare hconfig, readBuffer_bare hfile]
  cases configure s i with
  | error e => exact Or.inl ⟨rfl, fun config h => by cases h⟩
  | ok config =>
    cases readBuffer s i.file with
    | none => exact Or.inl ⟨rfl, fun _ _ => rfl⟩
    | some buffer => exact Or.inr ⟨config, buffer, rfl, rfl, rfl, rfl⟩

/-- A search that overflows stops the run, with and without project files. -/
theorem verdict_of_searchOverflows (hfile : ¬ s.LeadsToProject (Path.ofString i.file))
    (hconfig : ∀ path, i.config = some path → ¬ s.LeadsToProject (Path.ofString path))
    {overflow : Overflow} (h : SearchOverflows s i overflow) (host host' : ω) :
    (runInvocation s i host).1.verdict = .stopped "" overflow ∧
      (runInvocation s.bare i host').1.verdict = .stopped "" overflow := by
  obtain ⟨hreadable, config, hconfigured, hsearch⟩ := h
  rcases runInvocation_cases hfile hconfig host host' with
    ⟨-, hunread⟩ | ⟨config', buffer, hc, hb, hfull, hbare⟩
  · rw [hunread config hconfigured] at hreadable
    cases hreadable
  · obtain rfl : config = config' := Except.ok.inj (hconfigured.symm.trans hc)
    have hsearch' : projectSearch s.bare config i.file = .error overflow := by
      rw [projectSearch_bare hfile, hsearch]
      rfl
    rw [← name_of_readBuffer hb] at hsearch hsearch'
    rw [hfull, hbare]
    exact ⟨verdict_converse_of_error hsearch _ _, verdict_converse_of_error hsearch' _ _⟩

/-- How the runs with and without project files end: in the same way, or else the server cannot be
started and the run with a project file has not kept the reason. -/
theorem verdict_cases (hserver : AnswersBy serves refusal? reply)
    (hfile : ¬ s.LeadsToProject (Path.ofString i.file))
    (hconfig : ∀ path, i.config = some path → ¬ s.LeadsToProject (Path.ofString path))
    (host host' : ω) :
    ((runInvocation s i host).1.verdict = (runInvocation s.bare i host').1.verdict ∧
      ∀ config cause, CannotStart refusal? s i config cause →
        projectFile? s config i.file = none ∧
        (runInvocation s.bare i host').1.verdict =
          .failure (.bridge (.spawn config.executable cause))) ∨
    ∃ config cause, CannotStart refusal? s i config cause ∧
      projectFile? s config i.file ≠ none ∧
      (runInvocation s i host).1.verdict = .failure (.bridge .restartRequired) ∧
      (runInvocation s.bare i host').1.verdict =
        .failure (.bridge (.spawn config.executable cause)) := by
  rcases runInvocation_cases hfile hconfig host host' with
    ⟨hsame, hunread⟩ | ⟨config, buffer, hc, hb, hfull, hbare⟩
  · refine Or.inl ⟨by rw [hsame], fun config cause h => ?_⟩
    have hreadable := h.readable
    rw [hunread config h.configured] at hreadable
    cases hreadable
  have henv : s.bare.env = s.env := rfl
  have hname : buffer.name = i.file := name_of_readBuffer hb
  cases hsearch : projectSearch s config i.file with
  | error overflow =>
    have hstopped := verdict_of_searchOverflows hfile hconfig
      ⟨by rw [hb]; rfl, config, hc, hsearch⟩ host host'
    refine Or.inl ⟨hstopped.1.trans hstopped.2.symm, fun config' cause h => ?_⟩
    obtain rfl : config' = config := Except.ok.inj (h.configured.symm.trans hc)
    obtain ⟨found, hok⟩ := h.searched
    rw [hsearch] at hok
    cases hok
  | ok found =>
    have hfullSearch : projectSearch s config buffer.name = .ok found := by
      rw [hname, hsearch]
    have hbareSearch : projectSearch s.bare config buffer.name = .ok none := by
      rw [hname, projectSearch_bare hfile, hsearch]
      rfl
    have hproject : projectFile? s config i.file = found := by
      rw [projectFile?, hsearch]
      rfl
    rw [hfull, hbare]
    cases hcause : refusal? config.executable (config.expandedFlags s.env) with
    | none =>
      have hsame := verdict_converse_of_startable hserver henv hcause hfullSearch hbareSearch
        i.query host host'
      refine Or.inl ⟨hsame, fun config' cause h => ?_⟩
      obtain rfl : config' = config := Except.ok.inj (h.configured.symm.trans hc)
      rw [h.refused] at hcause
      cases hcause
    | some cause =>
      have hcannot : CannotStart refusal? s i config cause :=
        ⟨hc, by rw [hb]; rfl, ⟨found, hsearch⟩, hcause⟩
      have hspawn := verdict_converse_of_none hserver (s := s.bare) hcause hbareSearch i.query host'
      cases found with
      | none =>
        have hlost := verdict_converse_of_none hserver hcause hfullSearch i.query host
        refine Or.inl ⟨hlost.trans hspawn.symm, fun config' cause' h => ?_⟩
        obtain ⟨rfl, rfl⟩ := hcannot.unique h
        exact ⟨hproject, hspawn⟩
      | some path =>
        refine Or.inr ⟨config, cause, hcannot, ?_,
          verdict_converse_of_some hserver hcause hfullSearch i.query host, hspawn⟩
        rw [hproject]
        exact Option.some_ne_none path

/-- **Loading the project file is best effort,** but for one thing. With and without project files
a run ends with the same exit code and the same output, for any server that goes by the command. It
ends in the same way altogether, unless the server cannot be started and there is a project file. A
run that cannot start its server says why if there is no project file, and says that a restart is
required if there is one. If the search for the project file overflows, both runs are stopped. -/
theorem verdict_bare (hserver : AnswersBy serves refusal? reply) (s : Surroundings)
    (i : Invocation) (hfile : ¬ s.LeadsToProject (Path.ofString i.file))
    (hconfig : ∀ path, i.config = some path → ¬ s.LeadsToProject (Path.ofString path))
    (host host' : ω) :
    (runInvocation s i host).1.verdict.exitCode =
        (runInvocation s.bare i host').1.verdict.exitCode ∧
      (runInvocation s i host).1.verdict.output =
        (runInvocation s.bare i host').1.verdict.output ∧
      ((runInvocation s i host).1.verdict = (runInvocation s.bare i host').1.verdict ↔
        ∀ config cause, CannotStart refusal? s i config cause →
          projectFile? s config i.file = none) ∧
      (∀ config cause, CannotStart refusal? s i config cause →
        (runInvocation s.bare i host').1.verdict =
            .failure (.bridge (.spawn config.executable cause)) ∧
          (projectFile? s config i.file ≠ none →
            (runInvocation s i host).1.verdict = .failure (.bridge .restartRequired))) ∧
      ∀ overflow, SearchOverflows s i overflow →
        (runInvocation s i host).1.verdict = .stopped "" overflow ∧
          (runInvocation s.bare i host').1.verdict = .stopped "" overflow := by
  have hstopped := fun overflow (h : SearchOverflows s i overflow) =>
    verdict_of_searchOverflows hfile hconfig h host host'
  rcases verdict_cases hserver hfile hconfig host host' with
    ⟨heq, hcannot⟩ | ⟨config, cause, hcannot, hproject, hfull, hbare⟩
  · refine ⟨by rw [heq], by rw [heq], iff_of_true heq fun config cause h => (hcannot _ _ h).1,
      fun config cause h => ⟨(hcannot _ _ h).2, fun hproject => ?_⟩, hstopped⟩
    exact absurd (hcannot _ _ h).1 hproject
  · rw [hfull, hbare] at hstopped ⊢
    refine ⟨rfl, rfl, iff_of_false (fun h => nomatch h) fun h => hproject (h _ _ hcannot),
      fun config' cause' h => ⟨?_, fun _ => rfl⟩, hstopped⟩
    obtain ⟨rfl, rfl⟩ := hcannot.unique h
    rfl

end

/-! A source file with a project file beside it, and a query. -/

def sources : Surroundings where
  files := .directory [("src", .directory [("main.ml", .file []), (".merlin", .file [])])]
  cwd := ["src"]
  env _ := none

def reloads : Invocation where
  config := none
  flags := []
  ignoreWarnings := false
  file := "main.ml"
  query := .reload

/-- A server that accepts nothing but the query. -/
def refusesLoads (line : String) : Option (List UInt8) :=
  some (Text.encodeUtf8
    (if line = Command.refresh.line then "[\"return\",null]\n" else "[\"failure\",\"no\"]\n"))

theorem verdict_bare_refusesLoads :
    projectFile? sources .default "main.ml" = some ⟨true, ["src", ".merlin"]⟩ ∧
      (runInvocation sources reloads
        (⟨0, none⟩ : AnsweringHost (fun _ _ => none) refusesLoads)).1.verdict.exitCode = 0 := by
  have honeLine : ∀ line bytes, refusesLoads line = some bytes →
      Frame.lineFeed ∉ bytes.dropLast := by
    intro line bytes h
    obtain rfl := Option.some.inj h
    split <;> decide +kernel
  have hparts : (Path.ofString reloads.file).parts = [] ++ ["main.ml"] := by decide +kernel
  have hfile : ¬ sources.LeadsToProject (Path.ofString reloads.file) :=
    FileTree.not_leadsToProject_of_name hparts (by decide)
  refine ⟨by decide +kernel, ?_⟩
  obtain ⟨hcode, -⟩ := verdict_bare (AnsweringHost.answersBy honeLine) sources reloads hfile
    (fun path h => nomatch h) ⟨0, none⟩ ⟨0, none⟩
  rw [hcode]
  decide +kernel

/-- Where the server cannot be started, a project file hides the reason. -/
theorem complaint_cannotStart :
    (runInvocation sources reloads (⟨0, none⟩ :
        AnsweringHost (fun _ _ => some .notFound) refusesLoads)).1.verdict.complaint =
      "Error: server is not running after a failed start; an explicit restart is required\n" ∧
    (runInvocation sources.bare reloads (⟨0, none⟩ :
        AnsweringHost (fun _ _ => some .notFound) refusesLoads)).1.verdict.complaint =
      "Error: failed to execute ocamlmerlin: ocamlmerlin not found in PATH. " ++
        "Please ensure that ocamlmerlin is in PATH and is executable\n" :=
  ⟨by decide +kernel, by decide +kernel⟩

end CommandLine

end EditorBridge
