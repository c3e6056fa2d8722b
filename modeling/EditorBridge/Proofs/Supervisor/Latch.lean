import EditorBridge.Proofs.Server.Frame
import EditorBridge.Proofs.Supervisor.Lifecycle
import EditorBridge.Rehearsal.Host

/-!
# A start that fails is not tried again

A start that fails sets a latch, and only a requested restart opens it: a restart, or a change of
the flags. `FailedSince s ops` says that a run has come past a start that failed and no request
since. In this state nothing that is asked of a supervisor changes anything, and whatever needs a
process is refused; in any other state a call is never refused for this reason, and starts a
process if there is none. The main statement is `failed_start_latches`.

All of it is read off `perform_cases`, which says for any operation which starts it attempts, what
becomes of the latch, and which errors it can report.
-/

namespace EditorBridge

/-- The starts that have been attempted, the last one first, each with the cause of its failure if
it failed. -/
def tries : List Act → List (Option StartError)
  | [] => []
  | .started .. :: acts => none :: tries acts
  | .refused _ _ cause :: acts => some cause :: tries acts
  | _ :: acts => tries acts

/-- Whether an error reports a start that failed. -/
def BridgeError.isSpawn : BridgeError → Bool
  | .spawn .. => true
  | _ => false

/-- Whether an error says that there is no process because none could be started. -/
def BridgeError.isOfStart : BridgeError → Bool
  | .spawn .. | .restartRequired => true
  | _ => false

/-- The error that a result is, if it is one. -/
def failure {α : Type} : Except BridgeError α → Option BridgeError
  | .ok _ => none
  | .error e => some e

namespace Supervisor

variable {ω : Type}

namespace Operation

/-- The operations that request a restart. -/
def IsRestart : Operation → Prop
  | .restart | .addFlags _ | .clearFlags => True
  | _ => False

/-- The operations that cannot do without a process. -/
def NeedsProcess : Operation → Prop
  | .ensureRunning | .call _ => True
  | _ => False

end Operation

section

variable [Host ω]

/-- The error that an operation reports, if it fails. -/
def error? (s : Supervisor ω) : Operation → Option BridgeError
  | .ensureRunning => failure (ensureRunning.run s).1
  | .call command => failure ((call command).run s).1
  | .restart => failure (restart.run s).1
  | .shutdown => failure (shutdown.run s).1
  | .addFlags flags => failure ((addFlags flags).run s).1
  | .clearFlags => failure (clearFlags.run s).1

/-- The errors that some operations report, one after the other. -/
def errors (s : Supervisor ω) : List Operation → List BridgeError
  | [] => []
  | o :: ops => (s.error? o).toList ++ (s.perform o).errors ops

/-- An operation attempts a start that fails. -/
def StartFails (s : Supervisor (Watched ω)) (o : Operation) : Prop :=
  ∃ cause, tries (s.perform o).acts = some cause :: tries s.acts

/-- A start has failed in the course of some operations, and no restart has been requested since. -/
def FailedSince (s : Supervisor (Watched ω)) (ops : List Operation) : Prop :=
  ∃ before o since, ops = before ++ o :: since ∧ StartFails (s.after before) o ∧
    ∀ o' ∈ since, ¬ o'.IsRestart

theorem not_failedSince_nil (s : Supervisor (Watched ω)) : ¬ s.FailedSince [] := by
  rintro ⟨before, o, since, h, -⟩
  simp at h

theorem failedSince_concat (s : Supervisor (Watched ω)) (ops : List Operation) (o : Operation) :
    s.FailedSince (ops ++ [o]) ↔
      StartFails (s.after ops) o ∨ s.FailedSince ops ∧ ¬ o.IsRestart := by
  constructor
  · rintro ⟨before, o', since, h, hfails, hsince⟩
    rcases List.eq_nil_or_concat since with rfl | ⟨since, last, rfl⟩
    · obtain ⟨rfl, hlast⟩ := List.append_inj' h rfl
      obtain rfl := List.singleton_inj.mp hlast
      exact Or.inl hfails
    · rw [List.concat_eq_append] at h hsince
      obtain ⟨rfl, hlast⟩ :=
        List.append_inj' (show ops ++ [o] = (before ++ o' :: since) ++ [last] by simp [h]) rfl
      obtain rfl := List.singleton_inj.mp hlast
      refine Or.inr ⟨⟨before, o', since, rfl, hfails, fun u hu => ?_⟩, hsince o (by simp)⟩
      exact hsince u (List.mem_append_left _ hu)
  · rintro (hfails | ⟨⟨before, o', since, rfl, hfails, hsince⟩, ho⟩)
    · exact ⟨ops, o, [], rfl, hfails, List.forall_mem_nil _⟩
    · refine ⟨before, o', since ++ [o], by simp, hfails, fun u hu => ?_⟩
      rcases List.mem_append.mp hu with hu | hu
      · exact hsince u hu
      · exact List.mem_singleton.mp hu ▸ ho

end

/-! ## What an operation attempts -/

variable {s s₁ s' : Supervisor (Watched ω)}

/-- What an operation does about starts: what it has attempted, what has become of the latch, and
the error it reports. -/
inductive Attempt (s s' : Supervisor (Watched ω)) (requested : Prop) : Option BridgeError → Prop
  /-- No start was attempted, perhaps because one had failed before. -/
  | idle {error : Option BridgeError} : ¬ requested → tries s'.acts = tries s.acts →
      s'.startFailed = s.startFailed → (∀ e, error = some e → e.isSpawn = false) →
      (error = some .restartRequired → s.startFailed = true) → Attempt s s' requested error
  | failed {cause : StartError} : (requested ∨ s.startFailed = false) →
      tries s'.acts = some cause :: tries s.acts → s'.startFailed = true →
      Attempt s s' requested (some (.spawn s.executable cause))
  | succeeded {error : Option BridgeError} : (requested ∨ s.startFailed = false) →
      tries s'.acts = none :: tries s.acts → s'.startFailed = false →
      (∀ e, error = some e → e.isOfStart = false) → Attempt s s' requested error

/-- What follows an operation that did not fail adds nothing to it, if it attempts no start. -/
theorem Attempt.followed {requested : Prop} (h : Attempt s s₁ requested none)
    {error : Option BridgeError} (htries : tries s'.acts = tries s₁.acts)
    (hlatch : s'.startFailed = s₁.startFailed)
    (herror : ∀ e, error = some e → e.isOfStart = false) :
    Attempt s s' requested error := by
  have hspawn : ∀ e, error = some e → e.isSpawn = false := by
    intro e he
    have h := herror e he
    cases e <;> first | rfl | cases h
  cases h with
  | idle hno hsame hlatch₁ =>
    refine .idle hno (htries.trans hsame) (hlatch.trans hlatch₁) hspawn fun he => ?_
    have h := herror _ he
    cases h
  | succeeded h hnew hlatch₁ =>
    exact .succeeded h (htries.trans hnew) (hlatch.trans hlatch₁) herror

variable [Host ω]

theorem tries_poll (s : Supervisor (Watched ω)) : tries s.poll.acts = tries s.acts := by
  rcases s.poll_cases with ⟨-, h⟩ | ⟨p, inner, -, h | h⟩ <;> rw [h]
  · rfl
  · rfl

theorem startFailed_poll (s : Supervisor (Watched ω)) : s.poll.startFailed = s.startFailed := by
  rcases s.poll_cases with ⟨-, h⟩ | ⟨p, inner, -, h | h⟩ <;> rw [h]

theorem tries_terminate (s : Supervisor (Watched ω)) : tries s.terminate.acts = tries s.acts := by
  unfold terminate
  split <;> rfl

theorem startFailed_terminate (s : Supervisor (Watched ω)) :
    s.terminate.startFailed = s.startFailed := by
  unfold terminate
  split <;> rfl

/-- A start is attempted, and the latch is set if it fails. -/
theorem tries_start (s : Supervisor (Watched ω)) :
    (∃ cause, (start.run s).1 = .error (.spawn s.executable cause) ∧
      tries (start.run s).2.acts = some cause :: tries s.acts ∧
      (start.run s).2.startFailed = true) ∨
    (start.run s).1 = .ok () ∧ tries (start.run s).2.acts = none :: tries s.acts ∧
      (start.run s).2.startFailed = s.startFailed := by
  rcases s.start_cases with ⟨inner, cause, h⟩ | ⟨inner, id, h⟩ <;> rw [h]
  · exact Or.inl ⟨cause, rfl, rfl, rfl⟩
  · exact Or.inr ⟨rfl, rfl, rfl⟩

theorem not_isOfStart_of_breaksPipe {e : BridgeError} (h : breaksPipe e = true) :
    e.isOfStart = false := by
  cases e <;> first | rfl | cases h

theorem not_isOfStart_of_readOutcome {stream : List UInt8} {e : BridgeError}
    (h : (Frame.readOutcome stream).1 = .error e) : e.isOfStart = false := by
  obtain ⟨-, hclosed | ⟨cause, hcause⟩ | ⟨v, -, hanswer⟩⟩ := Frame.readOutcome_cases stream
  · obtain rfl := Except.error.inj (hclosed.symm.trans h)
    rfl
  · obtain rfl := Except.error.inj (hcause.symm.trans h)
    rfl
  · rw [hanswer] at h
    cases hv : Outcome.ofFrame v with
    | ok outcome =>
      rw [hv] at h
      cases h
    | error violation =>
      rw [hv] at h
      obtain rfl := Except.error.inj h
      rfl

/-- The exchange of a line attempts no start. -/
theorem tries_exchange (s : Supervisor (Watched ω)) (command : Command) :
    tries ((droppingProcess (converse command)).run s).2.acts = tries s.acts ∧
      ((droppingProcess (converse command)).run s).2.startFailed = s.startFailed ∧
      ∀ e, failure ((droppingProcess (converse command)).run s).1 = some e →
        e.isOfStart = false := by
  cases hp : s.process with
  | none =>
    have h : (droppingProcess (converse command)).run s = (.error .closed, s.terminate) := by
      simp only [droppingProcess, converse, Exchange.run_ofFun, hp]
      rfl
    rw [h]
    refine ⟨tries_terminate s, startFailed_terminate s, fun e he => ?_⟩
    obtain rfl := Option.some.inj he
    rfl
  | some p =>
    rcases exchange_cases hp command with
      ⟨inner, written, -, h⟩ | ⟨inner, answer, e, hbreaks, h⟩ <;> rw [h]
    · refine ⟨rfl, rfl, fun e he => ?_⟩
      cases hread : (Frame.readOutcome (p.unread ++ written)).1 with
      | ok outcome =>
        rw [hread] at he
        cases he
      | error e' =>
        rw [hread] at he
        obtain rfl := Option.some.inj he
        exact not_isOfStart_of_readOutcome hread
    · refine ⟨rfl, rfl, fun e' he => ?_⟩
      obtain rfl := Option.some.inj he
      exact not_isOfStart_of_breaksPipe hbreaks

theorem attempt_start (s : Supervisor (Watched ω)) {requested : Prop}
    (h : requested ∨ s.startFailed = false) (hs : s₁.startFailed = false)
    (htries : tries s₁.acts = tries s.acts) (hexecutable : s₁.executable = s.executable) :
    Attempt s (start.run s₁).2 requested (failure (start.run s₁).1) := by
  rcases tries_start s₁ with ⟨cause, herror, hnew, hlatch⟩ | ⟨hok, hnew, hlatch⟩
  · rw [herror, hexecutable]
    exact .failed h (hnew.trans (by rw [htries])) hlatch
  · rw [hok]
    refine .succeeded h (hnew.trans (by rw [htries])) (hlatch.trans hs) fun e he => ?_
    cases he

theorem executable_poll (s : Supervisor (Watched ω)) : s.poll.executable = s.executable := by
  rcases s.poll_cases with ⟨-, h⟩ | ⟨p, inner, -, h | h⟩ <;> rw [h]

theorem attempt_ensureRunning (s : Supervisor (Watched ω)) :
    Attempt s (ensureRunning.run s).2 False (failure (ensureRunning.run s).1) := by
  have htries := tries_poll s
  have hlatch := startFailed_poll s
  rw [run_ensureRunning]
  split_ifs with hup hfailed
  · exact .idle not_false htries hlatch (fun e he => nomatch he) (fun he => nomatch he)
  · refine .idle not_false htries hlatch (fun e he => ?_) fun _ => hlatch ▸ hfailed
    obtain rfl := Option.some.inj he
    rfl
  · have hopen : s.poll.startFailed = false := by simpa using hfailed
    exact attempt_start s (Or.inr (hlatch ▸ hopen)) hopen htries (executable_poll s)

theorem attempt_call (s : Supervisor (Watched ω)) (command : Command) :
    Attempt s ((call command).run s).2 False (failure ((call command).run s).1) := by
  have hensure := attempt_ensureRunning s
  rw [run_call]
  rcases h : ensureRunning.run s with ⟨e | u, s₁⟩ <;> rw [h] at hensure
  · exact hensure
  · obtain ⟨htries, hlatch, herror⟩ := tries_exchange s₁ command
    exact hensure.followed htries hlatch herror

theorem attempt_restart_with (s : Supervisor (Watched ω)) (flags : List String) :
    Attempt s (restart.run { s with flags := flags }).2 True
      (failure (restart.run { s with flags := flags }).1) := by
  rw [run_restart]
  refine attempt_start s (Or.inl trivial) ?_ ?_ ?_
  · exact startFailed_terminate { s with flags := flags, startFailed := false }
  · exact tries_terminate { s with flags := flags, startFailed := false }
  · rw [terminate_prepared s flags]
    unfold terminate
    split <;> rfl

/-- **What an operation does about starts.** -/
theorem perform_cases (s : Supervisor (Watched ω)) (o : Operation) :
    Attempt s (s.perform o) o.IsRestart (s.error? o) := by
  cases o with
  | ensureRunning => exact attempt_ensureRunning s
  | call command => exact attempt_call s command
  | restart => exact attempt_restart_with s s.flags
  | shutdown =>
    exact .idle not_false (tries_terminate s) (startFailed_terminate s) (fun e he => nomatch he)
      fun he => nomatch he
  | addFlags flags => exact attempt_restart_with s (s.flags ++ flags)
  | clearFlags => exact attempt_restart_with s []

/-! ## The latch -/

/-- The latch says whether a start has failed since the last request. -/
theorem startFailed_after_iff (hs : s.startFailed = false) (ops : List Operation) :
    (s.after ops).startFailed = true ↔ s.FailedSince ops := by
  induction ops using List.reverseRecOn with
  | nil => simp [hs, not_failedSince_nil]
  | append_singleton ops o ih =>
    rw [after_concat, failedSince_concat, ← ih]
    have hattempt := perform_cases (s.after ops) o
    unfold StartFails
    generalize (s.after ops).error? o = error at hattempt
    cases hattempt with
    | idle hno hsame hlatch =>
      rw [hsame, hlatch]
      simp [hno]
    | failed _ hnew hlatch =>
      rw [hnew, hlatch]
      simp
    | succeeded h hnew hlatch =>
      rw [hnew, hlatch]
      rcases h with h | h
      · simp [h]
      · simp [h]

/-- With the latch set there is no process. -/
def Latched (s : Supervisor ω) : Prop := s.startFailed = true ∧ s.process = none

/-- **Nothing changes behind the latch:** what needs a process is refused, and nothing is done. -/
theorem Latched.perform {s : Supervisor ω} (h : s.Latched) {o : Operation} (ho : ¬ o.IsRestart) :
    s.perform o = s ∧ (o.NeedsProcess → s.error? o = some .restartRequired) ∧
      (¬ o.NeedsProcess → s.error? o = none) := by
  obtain ⟨hfailed, hnone⟩ := h
  have hpoll : s.poll = s := by rw [poll, hnone]
  have hensure : ensureRunning.run s = (.error .restartRequired, s) := by
    have hup : s.isRunning = false := by rw [isRunning, hnone]; rfl
    rw [run_ensureRunning, hpoll, hup, hfailed]
    rfl
  cases o with
  | ensureRunning =>
    simp [Supervisor.perform, error?, hensure, failure, Operation.NeedsProcess]
  | call command =>
    simp [Supervisor.perform, error?, run_call, hensure, failure, Operation.NeedsProcess]
  | shutdown =>
    have hterminate : s.terminate = s := by rw [terminate, hnone]
    simp [Supervisor.perform, error?, shutdown, hterminate, failure, Operation.NeedsProcess]
  | restart => exact absurd trivial ho
  | addFlags flags => exact absurd trivial ho
  | clearFlags => exact absurd trivial ho

theorem Latched.after {s : Supervisor ω} (h : s.Latched) {ops : List Operation}
    (hops : ∀ o ∈ ops, ¬ o.IsRestart) :
    s.after ops = s ∧ ∀ e ∈ s.errors ops, e = .restartRequired := by
  induction ops with
  | nil => exact ⟨rfl, List.forall_mem_nil _⟩
  | cons o ops ih =>
    obtain ⟨ho, hrest⟩ := List.forall_mem_cons.mp hops
    obtain ⟨hsame, hneeds, hneedless⟩ := h.perform ho
    obtain ⟨hafter, herrors⟩ := ih hrest
    refine ⟨?_, fun e he => ?_⟩
    · change (s.perform o).after ops = s
      rw [hsame, hafter]
    · rw [errors, hsame] at he
      rcases List.mem_append.mp he with he | he
      · by_cases hn : o.NeedsProcess
        · rw [hneeds hn] at he
          exact List.mem_singleton.mp he
        · rw [hneedless hn] at he
          exact absurd he List.not_mem_nil
      · exact herrors e he

/-- Of operations among which only the first requests a restart, one at most reports that a start
has failed. -/
theorem countP_isSpawn_errors {s : Supervisor (Watched ω)} (h : Orderly s)
    {ops : List Operation} (hops : ∀ o ∈ ops.tail, ¬ o.IsRestart) :
    (s.errors ops).countP BridgeError.isSpawn ≤ 1 := by
  induction ops generalizing s with
  | nil => exact Nat.zero_le _
  | cons o ops ih =>
    have horderly : Orderly (s.perform o) := h.moves (moves_perform s o)
    have hrest := ih horderly fun u hu => hops u (List.mem_of_mem_tail hu)
    have hattempt := perform_cases s o
    rw [errors, List.countP_append]
    generalize s.error? o = error at hattempt
    have hsilent : (∀ e, error = some e → e.isSpawn = false) →
        error.toList.countP BridgeError.isSpawn = 0 := by
      intro hno
      refine List.countP_eq_zero.mpr fun e he => ?_
      simp [hno e (Option.mem_toList.mp he)]
    cases hattempt with
    | idle _ _ _ hspawn => rw [hsilent hspawn, Nat.zero_add]; exact hrest
    | succeeded _ _ _ hstart =>
      have hspawn : ∀ e, error = some e → e.isSpawn = false := by
        intro e he
        have hno := hstart e he
        cases e <;> first | rfl | cases hno
      rw [hsilent hspawn, Nat.zero_add]
      exact hrest
    | failed _ _ hlatch =>
      -- the start has set the latch, behind which every error is another one
      have hlatched : (s.perform o).Latched := ⟨hlatch, horderly.latch hlatch⟩
      have hno : ((s.perform o).errors ops).countP BridgeError.isSpawn = 0 := by
        refine List.countP_eq_zero.mpr fun e he => ?_
        rw [(hlatched.after hops).2 e he]
        exact Bool.false_ne_true
      rw [hno]
      exact Nat.le_refl 1

/-- A call without a process, or with one that turns out to have exited, attempts one start. -/
theorem tries_call {s : Supervisor (Watched ω)} (hs : s.startFailed = false)
    (hdown : ∀ p, s.process = some p → (Host.hasExited p.id s.host).1 = true) (command : Command) :
    ∃ r, tries (s.perform (.call command)).acts = r :: tries s.acts := by
  have hup : s.poll.isRunning = false := by
    rw [poll]
    cases hp : s.process with
    | none => simp [isRunning, hp]
    | some p =>
      have hexited := hdown p hp
      rcases h : Host.hasExited p.id s.host with ⟨exited, host⟩
      rw [h] at hexited
      obtain rfl : exited = true := hexited
      simp only [h]
      rfl
  have hensure : ensureRunning.run s = start.run s.poll := by
    rw [run_ensureRunning, hup, startFailed_poll, hs]
    rfl
  have htries := tries_poll s
  have hnew : ∃ r, tries (ensureRunning.run s).2.acts = r :: tries s.acts := by
    rw [hensure, ← htries]
    rcases tries_start s.poll with ⟨cause, -, h, -⟩ | ⟨-, h, -⟩
    · exact ⟨_, h⟩
    · exact ⟨_, h⟩
  change ∃ r, tries ((call command).run s).2.acts = r :: tries s.acts
  rw [run_call]
  rcases h : ensureRunning.run s with ⟨e | u, s₁⟩ <;> rw [h] at hnew
  · exact hnew
  · rw [(tries_exchange s₁ command).1]
    exact hnew

/-- **A start that fails is not tried again** before a restart is requested. As long as none has
been requested since a start failed, there is no process, whatever needs one is refused, and
nothing is done or changed, in particular no start attempted. As long as no start has failed since
the last request, no call is refused for that reason, and one without a process, or with one that
turns out to have exited, attempts exactly one start. So from one request to the next at most one
start is reported to have failed. -/
theorem failed_start_latches (host : ω) (executable : String) (flags : List String)
    (ops : List Operation) :
    (watched host executable flags ops).unwatched = (ofHost host executable flags).after ops ∧
      ((ofHost (.ofHost host) executable flags).FailedSince ops →
        (watched host executable flags ops).process = none ∧
        (∀ o, o.NeedsProcess →
          (watched host executable flags ops).error? o = some .restartRequired) ∧
        ∀ since, (∀ o ∈ since, ¬ o.IsRestart) →
          (ofHost (.ofHost host) executable flags).FailedSince (ops ++ since) ∧
          watched host executable flags (ops ++ since) = watched host executable flags ops) ∧
      (¬ (ofHost (.ofHost host) executable flags).FailedSince ops → ∀ command,
        (watched host executable flags ops).error? (.call command) ≠ some .restartRequired ∧
        ((∀ p, (watched host executable flags ops).process = some p →
            (Host.hasExited p.id (watched host executable flags ops).host).1 = true) →
          ∃ r, tries (watched host executable flags (ops ++ [.call command])).acts =
            r :: tries (watched host executable flags ops).acts)) ∧
      ∀ before o since, ops = before ++ o :: since → (∀ u ∈ since, ¬ u.IsRestart) →
        ((watched host executable flags before).errors (o :: since)).countP
          BridgeError.isSpawn ≤ 1 := by
  have hlatch := startFailed_after_iff
    (s := ofHost (Watched.ofHost host) executable flags) rfl
  have horderly := fun ops => orderly_watched host executable flags ops
  refine ⟨unwatched_watched host executable flags ops, fun hfailed => ?_, fun hopen command => ?_,
    ?_⟩
  · have hset := (hlatch ops).mpr hfailed
    have hlatched : (watched host executable flags ops).Latched :=
      ⟨hset, (horderly ops).latch hset⟩
    refine ⟨hlatched.2, fun o ho => ?_, fun since hsince => ?_⟩
    · refine (hlatched.perform ?_).2.1 ho
      cases o <;> first | exact not_false | exact absurd ho not_false
    · have hsame : watched host executable flags (ops ++ since) =
          watched host executable flags ops := by
        rw [watched, after_append]
        exact (hlatched.after hsince).1
      refine ⟨(hlatch (ops ++ since)).mp ?_, hsame⟩
      change (watched host executable flags (ops ++ since)).startFailed = true
      rw [hsame]
      exact hset
  · have hunset : (watched host executable flags ops).startFailed = false :=
      Bool.eq_false_iff.mpr fun hset => hopen ((hlatch ops).mp hset)
    refine ⟨fun herror => ?_, fun hdown => ?_⟩
    · have hattempt := perform_cases (watched host executable flags ops) (.call command)
      rw [herror] at hattempt
      cases hattempt with
      | idle _ _ _ _ hset => exact Bool.false_ne_true (hunset.symm.trans (hset rfl))
      | succeeded _ _ _ hstart => exact absurd (hstart _ rfl) (by decide)
    · rw [watched_concat]
      exact tries_call hunset hdown command
  · rintro before o since - hsince
    exact countP_isSpawn_errors (horderly before) hsince

/-! A supervisor of a server that is nowhere to be found: the first call reports it, and after a
shutdown the second one is refused. -/

def nothingInstalled : Rehearsal.Host := .ofReplies [] ⟨.directory [], [], fun _ => none⟩

def callAndShutdown : List Operation := [.call Command.refresh, .shutdown]

theorem latched_nothingInstalled :
    (watched nothingInstalled "server" [] callAndShutdown).process = none ∧
      (watched nothingInstalled "server" [] callAndShutdown).error? (.call Command.errors) =
        some .restartRequired ∧
      watched nothingInstalled "server" [] (callAndShutdown ++ [.call Command.errors]) =
        watched nothingInstalled "server" [] callAndShutdown := by
  have hfails : StartFails (ofHost (Watched.ofHost nothingInstalled) "server" [])
      (.call Command.refresh) := ⟨.notFound, by decide +kernel⟩
  have hsince : (ofHost (Watched.ofHost nothingInstalled) "server" []).FailedSince
      callAndShutdown := by
    refine ⟨[], _, [.shutdown], rfl, hfails, fun o ho => ?_⟩
    rw [List.mem_singleton.mp ho]
    exact not_false
  obtain ⟨-, hlatched, -⟩ := failed_start_latches nothingInstalled "server" [] callAndShutdown
  obtain ⟨hnone, hrefused, hstill⟩ := hlatched hsince
  refine ⟨hnone, hrefused (.call Command.errors) trivial, (hstill _ fun o ho => ?_).2⟩
  rw [List.mem_singleton.mp ho]
  exact not_false

end Supervisor

end EditorBridge
