import EditorBridge.Proofs.Supervisor.Watched
import Mathlib.Logic.Relation
import Mathlib.Data.List.Infix

/-!
# What a supervisor can do

A supervisor on a watched host changes by moves (`Move`): it finds its process alive or exited,
ends it, starts one, and exchanges a line with it. Only a supervisor without a process starts one
or is prepared for new flags, and a process that has failed to answer is ended in the same move.

The main statement is `moves_perform`, that every operation is a row of moves. What a move keeps is
therefore kept by every run.
-/

namespace EditorBridge.Supervisor

variable {ω : Type}

/-- What has been done to the processes of a supervisor, the latest first. -/
def acts (s : Supervisor (Watched ω)) : List Act := s.host.acts

/-- One move of a supervisor. -/
inductive Move : Supervisor (Watched ω) → Supervisor (Watched ω) → Prop
  | alive {s : Supervisor (Watched ω)} {p : Process} (inner : ω) : s.process = some p →
      Move s { s with host := ⟨inner, .polled p.id false :: s.acts⟩ }
  | exited {s : Supervisor (Watched ω)} {p : Process} (inner : ω) : s.process = some p →
      Move s { s with host := ⟨inner, .polled p.id true :: s.acts⟩, process := none }
  | stopped {s : Supervisor (Watched ω)} {p : Process} (inner : ω) : s.process = some p →
      Move s { s with host := ⟨inner, .stopped p.id :: s.acts⟩, process := none }
  /-- A restart is requested, perhaps with other flags, and the old process has been ended. -/
  | prepared {s : Supervisor (Watched ω)} (flags : List String) : s.process = none →
      Move s { s with flags := flags, startFailed := false }
  | started {s : Supervisor (Watched ω)} (inner : ω) (id : ProcessId) : s.process = none →
      s.startFailed = false →
      Move s { s with
        host := ⟨inner, .started s.executable s.flags id :: s.acts⟩
        process := some ⟨id, []⟩
        generation := s.generation + 1 }
  | refused {s : Supervisor (Watched ω)} (inner : ω) (cause : StartError) : s.process = none →
      s.startFailed = false →
      Move s { s with
        host := ⟨inner, .refused s.executable s.flags cause :: s.acts⟩
        startFailed := true }
  /-- A line is answered in a way that keeps the process. -/
  | answered {s : Supervisor (Watched ω)} {p : Process} (inner : ω) (line : String)
      (written : List UInt8) : s.process = some p →
      (∀ e, (Frame.readOutcome (p.unread ++ written)).1 = .error e → breaksPipe e = false) →
      Move s { s with
        host := ⟨inner, .wrote p.id line (some written) :: s.acts⟩
        process := some ⟨p.id, (Frame.readOutcome (p.unread ++ written)).2⟩ }
  /-- A line is not answered in such a way, and the process is ended. -/
  | dropped {s : Supervisor (Watched ω)} {p : Process} (inner : ω) (line : String)
      (answer : Option (List UInt8)) : s.process = some p →
      Move s { s with
        host := ⟨inner, .stopped p.id :: .wrote p.id line answer :: s.acts⟩
        process := none }

/-- Any number of moves. -/
abbrev Moves : Supervisor (Watched ω) → Supervisor (Watched ω) → Prop :=
  Relation.ReflTransGen Move

theorem Move.acts_suffix {s s' : Supervisor (Watched ω)} (h : Move s s') :
    s.acts <:+ s'.acts := by
  cases h with
  | prepared => exact List.suffix_refl _
  | dropped => exact (List.suffix_cons _ _).trans (List.suffix_cons _ _)
  | alive => exact List.suffix_cons _ _
  | exited => exact List.suffix_cons _ _
  | stopped => exact List.suffix_cons _ _
  | started => exact List.suffix_cons _ _
  | refused => exact List.suffix_cons _ _
  | answered => exact List.suffix_cons _ _

theorem Moves.acts_suffix {s s' : Supervisor (Watched ω)} (h : Moves s s') :
    s.acts <:+ s'.acts := by
  induction h with
  | refl => exact List.suffix_refl _
  | tail _ hmove ih => exact ih.trans hmove.acts_suffix

theorem Move.generation_le {s s' : Supervisor (Watched ω)} (h : Move s s') :
    s.generation ≤ s'.generation := by
  cases h with
  | started => exact Nat.le_succ _
  | _ => exact Nat.le_refl _

theorem Moves.generation_le {s s' : Supervisor (Watched ω)} (h : Moves s s') :
    s.generation ≤ s'.generation := by
  induction h with
  | refl => exact Nat.le_refl _
  | tail _ hmove ih => exact Nat.le_trans ih hmove.generation_le

theorem process_eq_none_of_isRunning {s : Supervisor ω} (h : ¬ s.isRunning = true) :
    s.process = none := by
  cases hp : s.process with
  | none => rfl
  | some p => exact absurd (by rw [isRunning, hp]; rfl) h

/-! ## The operations, run -/

section

variable [Host ω]

theorem run_ensureRunning (s : Supervisor ω) :
    ensureRunning.run s =
      if s.poll.isRunning then (.ok (), s.poll)
      else if s.poll.startFailed then (.error .restartRequired, s.poll)
      else start.run s.poll := by
  rw [ensureRunning, Exchange.run_bind, Exchange.run_change]
  simp only
  rw [Exchange.run_bind, Exchange.run_look]
  cases s.poll.isRunning with
  | true => rfl
  | false =>
    simp only [Bool.false_eq_true, if_false, startUnlessFailed]
    rw [Exchange.run_bind, Exchange.run_look]
    cases s.poll.startFailed <;> rfl

theorem run_restart (s : Supervisor ω) :
    restart.run s = start.run (terminate { s with startFailed := false }) := rfl

theorem run_call (command : Command) (s : Supervisor ω) :
    (call command).run s =
      match ensureRunning.run s with
      | (.ok (), s') => (droppingProcess (converse command)).run s'
      | (.error e, s') => (.error e, s') := by
  rw [call, Exchange.run_bind]
  rcases ensureRunning.run s with ⟨e | u, s'⟩ <;> rfl

section

variable {α : Type} {x : Exchange (Supervisor ω) α} {s s' : Supervisor ω}

theorem run_droppingProcess_of_ok {a : α} (h : x.run s = (.ok a, s')) :
    (droppingProcess x).run s = (.ok a, s') := by
  simp only [droppingProcess, Exchange.run_ofFun, h]

theorem run_droppingProcess_of_error {e : BridgeError} (h : x.run s = (.error e, s')) :
    (droppingProcess x).run s = (.error e, if breaksPipe e then s'.terminate else s') := by
  simp only [droppingProcess, Exchange.run_ofFun, h]

end

/-- The flags and the latch do not matter for the end of a process. -/
theorem terminate_prepared (s : Supervisor ω) (flags : List String) :
    terminate { s with flags := flags, startFailed := false } =
      { s.terminate with flags := flags, startFailed := false } := by
  rcases s with ⟨host, executable, old, process | p, generation, failed⟩ <;> rfl

/-- The end of a process changes nothing but the host. -/
theorem terminate_eq (s : Supervisor ω) :
    s.terminate = { s with host := s.terminate.host, process := none } := by
  rcases s with ⟨host, executable, flags, process | p, generation, failed⟩ <;> rfl

theorem process_terminate (s : Supervisor ω) : s.terminate.process = none := by
  rcases s with ⟨host, executable, flags, process | p, generation, failed⟩ <;> rfl

end

/-! ## Operations are moves -/

variable [Host ω]

theorem poll_cases (s : Supervisor (Watched ω)) :
    s.process = none ∧ s.poll = s ∨
      ∃ p inner, s.process = some p ∧
        (s.poll = { s with host := ⟨inner, .polled p.id false :: s.acts⟩ } ∨
          s.poll = { s with host := ⟨inner, .polled p.id true :: s.acts⟩, process := none }) := by
  cases hp : s.process with
  | none => exact Or.inl ⟨rfl, by rw [poll, hp]⟩
  | some p =>
    rcases hexited : Host.hasExited p.id s.host.inner with ⟨exited, inner⟩
    have h : Host.hasExited p.id s.host =
        (exited, (⟨inner, .polled p.id exited :: s.acts⟩ : Watched ω)) := by
      change Watched.hasExited p.id s.host = _
      rw [Watched.hasExited, hexited]
      rfl
    refine Or.inr ⟨p, inner, rfl, ?_⟩
    rw [poll, hp]
    cases exited with
    | false => exact Or.inl (by simp only [h])
    | true => exact Or.inr (by simp only [h])

theorem start_cases (s : Supervisor (Watched ω)) :
    (∃ inner cause, start.run s = (.error (.spawn s.executable cause), { s with
      host := ⟨inner, .refused s.executable s.flags cause :: s.acts⟩
      startFailed := true })) ∨
    ∃ inner id, start.run s = (.ok (), { s with
      host := ⟨inner, .started s.executable s.flags id :: s.acts⟩
      process := some ⟨id, []⟩
      generation := s.generation + 1 }) := by
  rcases h : Host.start s.executable s.flags s.host.inner with ⟨cause | id, inner⟩
  · left
    refine ⟨inner, cause, ?_⟩
    simp only [start, Exchange.run_ofFun, Host.start, Watched.start, h]
    rfl
  · right
    refine ⟨inner, id, ?_⟩
    simp only [start, Exchange.run_ofFun, Host.start, Watched.start, h]
    rfl

theorem moves_poll (s : Supervisor (Watched ω)) : Moves s s.poll := by
  rcases s.poll_cases with ⟨-, h⟩ | ⟨p, inner, hp, h | h⟩
  · rw [h]
  · rw [h]
    exact .single (.alive inner hp)
  · rw [h]
    exact .single (.exited inner hp)

theorem moves_terminate (s : Supervisor (Watched ω)) : Moves s s.terminate := by
  cases hp : s.process with
  | none =>
    have h : s.terminate = s := by rw [terminate, hp]
    rw [h]
  | some p =>
    have h : s.terminate = { s with
        host := ⟨Host.stop p.id s.host.inner, .stopped p.id :: s.acts⟩, process := none } := by
      rw [terminate, hp]
      rfl
    rw [h]
    exact .single (.stopped _ hp)

/-- A start is one move, if there is no process and no start has failed. -/
theorem moves_start {s : Supervisor (Watched ω)} (hp : s.process = none)
    (hf : s.startFailed = false) : Moves s (start.run s).2 := by
  rcases s.start_cases with ⟨inner, cause, h⟩ | ⟨inner, id, h⟩
  · rw [h]
    exact .single (.refused inner cause hp hf)
  · rw [h]
    exact .single (.started inner id hp hf)

theorem moves_ensureRunning (s : Supervisor (Watched ω)) : Moves s (ensureRunning.run s).2 := by
  rw [run_ensureRunning]
  have hpoll := moves_poll s
  split_ifs with hup hfailed
  · exact hpoll
  · exact hpoll
  · exact hpoll.trans
      (moves_start (process_eq_none_of_isRunning hup) (by simpa using hfailed))

theorem moves_restart_with (s : Supervisor (Watched ω)) (flags : List String) :
    Moves s (restart.run { s with flags := flags }).2 := by
  -- the flags are set while the old process is still held, but its end does not look at them
  rw [run_restart, terminate_prepared s flags]
  have hnone := process_terminate s
  have hprepared := Move.prepared flags hnone
  exact ((moves_terminate s).tail hprepared).trans (moves_start hnone rfl)

/-- A line is exchanged with a process, which is kept or ended as the answer asks for it. -/
theorem exchange_cases {s : Supervisor (Watched ω)} {p : Process} (hp : s.process = some p)
    (command : Command) :
    (∃ inner written,
      (∀ e, (Frame.readOutcome (p.unread ++ written)).1 = .error e → breaksPipe e = false) ∧
      (droppingProcess (converse command)).run s =
        ((Frame.readOutcome (p.unread ++ written)).1, { s with
          host := ⟨inner, .wrote p.id command.line (some written) :: s.acts⟩
          process := some ⟨p.id, (Frame.readOutcome (p.unread ++ written)).2⟩ })) ∨
    ∃ inner answer e, breaksPipe e = true ∧
      (droppingProcess (converse command)).run s =
        (.error e, { s with
          host := ⟨inner, .stopped p.id :: .wrote p.id command.line answer :: s.acts⟩
          process := none }) := by
  rcases h : Host.deliver p.id command.line s.host.inner with ⟨answer, inner⟩
  have hdeliver : Host.deliver p.id command.line s.host =
      (answer, (⟨inner, .wrote p.id command.line answer :: s.acts⟩ : Watched ω)) := by
    change Watched.deliver p.id command.line s.host = _
    rw [Watched.deliver, h]
    rfl
  cases answer with
  | none =>
    have hrun : (converse command).run s = (.error (.transport .unwritable), { s with
        host := ⟨inner, .wrote p.id command.line none :: s.acts⟩ }) := by
      simp only [converse, Exchange.run_ofFun, hp, hdeliver]
    have hbreaks : breaksPipe (.transport .unwritable) = true := rfl
    refine Or.inr ⟨Host.stop p.id inner, none, .transport .unwritable, hbreaks, ?_⟩
    rw [run_droppingProcess_of_error hrun, if_pos hbreaks, terminate]
    simp only [hp]
    rfl
  | some written =>
    rcases hread : Frame.readOutcome (p.unread ++ written) with ⟨r, rest⟩
    have hrun : (converse command).run s = (r, { s with
        host := ⟨inner, .wrote p.id command.line (some written) :: s.acts⟩
        process := some ⟨p.id, rest⟩ }) := by
      simp only [converse, Exchange.run_ofFun, hp, hdeliver, hread]
    cases r with
    | error e =>
      have hdropping := run_droppingProcess_of_error hrun
      cases hbreaks : breaksPipe e with
      | true =>
        rw [if_pos hbreaks] at hdropping
        exact Or.inr ⟨Host.stop p.id inner, some written, e, hbreaks, hdropping⟩
      | false =>
        rw [if_neg (by simp [hbreaks])] at hdropping
        refine Or.inl ⟨inner, written, ?_, ?_⟩
        · intro e' he'
          rw [hread] at he'
          cases he'
          exact hbreaks
        · rw [hdropping, hread]
    | ok outcome =>
      refine Or.inl ⟨inner, written, ?_, ?_⟩
      · intro e he
        rw [hread] at he
        cases he
      · rw [run_droppingProcess_of_ok hrun, hread]

theorem moves_exchange (s : Supervisor (Watched ω)) (command : Command) :
    Moves s ((droppingProcess (converse command)).run s).2 := by
  cases hp : s.process with
  | none =>
    have h : ((droppingProcess (converse command)).run s).2 = s.terminate := by
      simp only [droppingProcess, converse, Exchange.run_ofFun, hp]
      rfl
    rw [h]
    exact moves_terminate s
  | some p =>
    rcases exchange_cases hp command with
      ⟨inner, written, hkeeps, h⟩ | ⟨inner, answer, e, -, h⟩
    · rw [h]
      exact .single (.answered inner command.line written hp hkeeps)
    · rw [h]
      exact .single (.dropped inner command.line answer hp)

theorem moves_call (s : Supervisor (Watched ω)) (command : Command) :
    Moves s ((call command).run s).2 := by
  rw [run_call]
  have hrunning := moves_ensureRunning s
  rcases h : ensureRunning.run s with ⟨e | u, s'⟩
  · rw [h] at hrunning
    exact hrunning
  · rw [h] at hrunning
    exact hrunning.trans (moves_exchange s' command)

/-- **Every operation is a row of moves.** -/
theorem moves_perform (s : Supervisor (Watched ω)) (o : Operation) : Moves s (s.perform o) := by
  cases o with
  | ensureRunning => exact moves_ensureRunning s
  | call command => exact moves_call s command
  | restart => exact moves_restart_with s s.flags
  | shutdown => exact moves_terminate s
  | addFlags flags => exact moves_restart_with s (s.flags ++ flags)
  | clearFlags => exact moves_restart_with s []

theorem moves_after (s : Supervisor (Watched ω)) (ops : List Operation) :
    Moves s (s.after ops) := by
  induction ops generalizing s with
  | nil => exact .refl
  | cons o ops ih => exact (moves_perform s o).trans (ih (s.perform o))

end EditorBridge.Supervisor
