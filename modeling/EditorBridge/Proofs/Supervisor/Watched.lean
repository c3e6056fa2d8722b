import EditorBridge.Server.Supervisor

/-!
# Runs on a watched host

A run of a supervisor is any number of operations, one after the other, on any host. What the
environment does in between is what the host answers: a process may have exited whenever it is
asked about, may not take a line or may break off its answer, and a start may fail.

To say what has been done to the processes of a host, a watched host notes every act. A supervisor
cannot tell it from the host inside: the runs on both are the same (`unwatched_watched`).
-/

namespace EditorBridge

/-- What is done to a process. -/
inductive Act where
  | started (executable : String) (flags : List String) (id : ProcessId)
  /-- A start that failed. -/
  | refused (executable : String) (flags : List String) (cause : StartError)
  | polled (id : ProcessId) (exited : Bool)
  /-- A process was sent a line, and what it wrote then if it took the line. -/
  | wrote (id : ProcessId) (line : String) (answer : Option (List UInt8))
  | stopped (id : ProcessId)

/-- Something holds of every act, given what had been done before it, the latest first. -/
def Throughout (P : Act → List Act → Prop) (acts : List Act) : Prop :=
  ∀ a earlier, a :: earlier <:+ acts → P a earlier

theorem throughout_nil (P : Act → List Act → Prop) : Throughout P [] := by
  intro a earlier h
  cases List.suffix_nil.mp h

theorem throughout_cons {P : Act → List Act → Prop} {a : Act} {acts : List Act} :
    Throughout P (a :: acts) ↔ P a acts ∧ Throughout P acts := by
  constructor
  · intro h
    exact ⟨h a acts (List.suffix_refl _),
      fun b earlier hb => h b earlier (hb.trans (List.suffix_cons a acts))⟩
  · rintro ⟨ha, hrest⟩ b earlier hb
    rcases List.suffix_cons_iff.mp hb with heq | hb
    · obtain ⟨rfl, rfl⟩ := List.cons.inj heq
      exact ha
    · exact hrest b earlier hb

/-- A host and what has been done to its processes. -/
structure Watched (ω : Type) where
  inner : ω
  /-- What has been done, the latest first. -/
  acts : List Act

namespace Watched

variable {ω : Type}

def ofHost (inner : ω) : Watched ω := ⟨inner, []⟩

variable [Host ω]

def start (executable : String) (flags : List String) (w : Watched ω) :
    Except StartError ProcessId × Watched ω :=
  match Host.start executable flags w.inner with
  | (.ok id, inner) => (.ok id, ⟨inner, .started executable flags id :: w.acts⟩)
  | (.error cause, inner) => (.error cause, ⟨inner, .refused executable flags cause :: w.acts⟩)

def hasExited (id : ProcessId) (w : Watched ω) : Bool × Watched ω :=
  let (exited, inner) := Host.hasExited id w.inner
  (exited, ⟨inner, .polled id exited :: w.acts⟩)

def deliver (id : ProcessId) (line : String) (w : Watched ω) :
    Option (List UInt8) × Watched ω :=
  let (answer, inner) := Host.deliver id line w.inner
  (answer, ⟨inner, .wrote id line answer :: w.acts⟩)

def stop (id : ProcessId) (w : Watched ω) : Watched ω :=
  ⟨Host.stop id w.inner, .stopped id :: w.acts⟩

instance : Host (Watched ω) where
  start := start
  hasExited := hasExited
  deliver := deliver
  stop := stop

end Watched

namespace Supervisor

/-- What may be asked of a supervisor. -/
inductive Operation where
  | ensureRunning
  | call (command : Command)
  | restart
  | shutdown
  | addFlags (flags : List String)
  | clearFlags

variable {ω α β : Type}

section

variable [Host ω]

/-- The supervisor after an operation, whether the operation has failed or not. -/
def perform (s : Supervisor ω) : Operation → Supervisor ω
  | .ensureRunning => (ensureRunning.run s).2
  | .call command => ((call command).run s).2
  | .restart => (restart.run s).2
  | .shutdown => (shutdown.run s).2
  | .addFlags flags => ((addFlags flags).run s).2
  | .clearFlags => (clearFlags.run s).2

def after (s : Supervisor ω) (ops : List Operation) : Supervisor ω := ops.foldl perform s

@[simp] theorem after_nil (s : Supervisor ω) : s.after [] = s := rfl

@[simp] theorem after_concat (s : Supervisor ω) (ops : List Operation) (o : Operation) :
    s.after (ops ++ [o]) = (s.after ops).perform o := by
  simp [after]

theorem after_append (s : Supervisor ω) (before since : List Operation) :
    s.after (before ++ since) = (s.after before).after since :=
  List.foldl_append

end

/-! ## Watching changes nothing -/

/-- The supervisor with the host inside. -/
def unwatched (s : Supervisor (Watched ω)) : Supervisor ω :=
  ⟨s.host.inner, s.executable, s.flags, s.process, s.generation, s.startFailed⟩

/-- A new supervisor after some operations, with all that has been done to its processes. -/
def watched [Host ω] (host : ω) (executable : String) (flags : List String)
    (ops : List Operation) : Supervisor (Watched ω) :=
  (ofHost (.ofHost host) executable flags).after ops

theorem watched_concat [Host ω] (host : ω) (executable : String) (flags : List String)
    (ops : List Operation) (o : Operation) :
    watched host executable flags (ops ++ [o]) =
      (watched host executable flags ops).perform o :=
  after_concat _ ops o

/-- An exchange on a watched host does what another one does on the host inside. -/
def Mirrors (x : Exchange (Supervisor (Watched ω)) α) (y : Exchange (Supervisor ω) α) : Prop :=
  ∀ s, y.run s.unwatched = ((x.run s).1, (x.run s).2.unwatched)

namespace Mirrors

variable {x : Exchange (Supervisor (Watched ω)) α} {y : Exchange (Supervisor ω) α}

theorem pure (a : α) : Mirrors (ω := ω) (Pure.pure a) (Pure.pure a) := fun _ => rfl

theorem throw (e : BridgeError) : Mirrors (ω := ω) (α := α) (throw e) (throw e) := fun _ => rfl

theorem look {f : Supervisor (Watched ω) → α} {g : Supervisor ω → α}
    (h : ∀ s, g s.unwatched = f s) : Mirrors (.look f) (.look g) := fun s => by
  rw [Exchange.run_look, Exchange.run_look, h]

theorem change {f : Supervisor (Watched ω) → Supervisor (Watched ω)}
    {g : Supervisor ω → Supervisor ω} (h : ∀ s, g s.unwatched = (f s).unwatched) :
    Mirrors (.change f) (.change g) := fun s => by
  rw [Exchange.run_change, Exchange.run_change, h]

theorem bind {f : α → Exchange (Supervisor (Watched ω)) β} {g : α → Exchange (Supervisor ω) β}
    (h : Mirrors x y) (hf : ∀ a, Mirrors (f a) (g a)) : Mirrors (x >>= f) (y >>= g) := by
  intro s
  rw [Exchange.run_bind, Exchange.run_bind, h s]
  rcases x.run s with ⟨e | a, s'⟩
  · rfl
  · exact hf a s'

end Mirrors

variable [Host ω]

theorem poll_unwatched (s : Supervisor (Watched ω)) : s.unwatched.poll = s.poll.unwatched := by
  rcases s with ⟨w, executable, flags, process | p, generation, failed⟩
  · rfl
  · simp only [poll, unwatched, Host.hasExited, Watched.hasExited]
    rcases Host.hasExited p.id w.inner with ⟨exited | exited, inner⟩ <;> rfl

theorem terminate_unwatched (s : Supervisor (Watched ω)) :
    s.unwatched.terminate = s.terminate.unwatched := by
  rcases s with ⟨w, executable, flags, process | p, generation, failed⟩ <;> rfl

theorem mirrors_start : Mirrors (ω := ω) start start := by
  intro s
  simp only [start, Exchange.run_ofFun, unwatched, Host.start, Watched.start]
  rcases Host.start s.executable s.flags s.host.inner with ⟨cause | id, inner⟩ <;> rfl

theorem mirrors_converse (command : Command) :
    Mirrors (ω := ω) (converse command) (converse command) := by
  rintro ⟨w, executable, flags, process | p, generation, failed⟩
  · rfl
  · simp only [converse, Exchange.run_ofFun, unwatched, Host.deliver, Watched.deliver]
    rcases Host.deliver p.id command.line w.inner with ⟨written | written, inner⟩ <;> rfl

theorem Mirrors.droppingProcess {x : Exchange (Supervisor (Watched ω)) α}
    {y : Exchange (Supervisor ω) α} (h : Mirrors x y) :
    Mirrors (Supervisor.droppingProcess x) (Supervisor.droppingProcess y) := by
  intro s
  simp only [Supervisor.droppingProcess, Exchange.run_ofFun, h s]
  rcases x.run s with ⟨e | a, s'⟩
  · cases h : breaksPipe e
    · simp [h]
    · simp [h, terminate_unwatched]
  · rfl

theorem mirrors_ensureRunning : Mirrors (ω := ω) ensureRunning ensureRunning := by
  refine (Mirrors.change poll_unwatched).bind fun _ => (Mirrors.look fun _ => rfl).bind fun up => ?_
  cases up
  · refine (Mirrors.look fun _ => rfl).bind fun failed => ?_
    cases failed
    · exact mirrors_start
    · exact Mirrors.throw _
  · exact Mirrors.pure _

theorem mirrors_restart : Mirrors (ω := ω) restart restart :=
  Mirrors.bind (Mirrors.change fun s => terminate_unwatched { s with startFailed := false })
    fun _ => mirrors_start

theorem mirrors_call (command : Command) : Mirrors (ω := ω) (call command) (call command) :=
  mirrors_ensureRunning.bind fun _ => (mirrors_converse command).droppingProcess

theorem unwatched_perform (s : Supervisor (Watched ω)) (o : Operation) :
    (s.perform o).unwatched = s.unwatched.perform o := by
  have h : ∀ {α : Type} {x : Exchange (Supervisor (Watched ω)) α} {y : Exchange (Supervisor ω) α},
      Mirrors x y → (x.run s).2.unwatched = (y.run s.unwatched).2 :=
    fun hxy => (congrArg Prod.snd (hxy s)).symm
  cases o with
  | ensureRunning => exact h mirrors_ensureRunning
  | call command => exact h (mirrors_call command)
  | restart => exact h mirrors_restart
  | shutdown => exact h (Mirrors.change terminate_unwatched)
  | addFlags flags => exact h ((Mirrors.change fun _ => rfl).bind fun _ => mirrors_restart)
  | clearFlags => exact h ((Mirrors.change fun _ => rfl).bind fun _ => mirrors_restart)

theorem unwatched_after (s : Supervisor (Watched ω)) (ops : List Operation) :
    (s.after ops).unwatched = s.unwatched.after ops := by
  induction ops generalizing s with
  | nil => rfl
  | cons o ops ih => exact (ih (s.perform o)).trans (by rw [unwatched_perform]; rfl)

/-- **A watched run is a run on the host inside,** of which every act is noted. -/
theorem unwatched_watched (host : ω) (executable : String) (flags : List String)
    (ops : List Operation) :
    (watched host executable flags ops).unwatched = (ofHost host executable flags).after ops :=
  unwatched_after _ ops

end Supervisor

end EditorBridge
