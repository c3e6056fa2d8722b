import EditorBridge.Proofs.Supervisor.Move

/-!
# The life of server processes

What holds after any run of a supervisor: its number is the number of processes it has started, the
process it holds is the last of them and has the flags that are set now, and it starts none before
the one it had has ended. The main statement is `lifecycle_after`. It rests on the invariant
`Orderly`, which every move keeps.
-/

namespace EditorBridge

/-- An attempt to start a process, whether it fails or not. -/
def Act.IsStart : Act → Prop
  | .started .. | .refused .. => True
  | _ => False

/-- The processes that have been started, the last one first, each with its executable and its
flags. -/
def starts : List Act → List (String × List String × ProcessId)
  | [] => []
  | .started executable flags id :: acts => (executable, flags, id) :: starts acts
  | _ :: acts => starts acts

/-- The processes that have been started and have neither been ended nor been found to have
exited. -/
def alive : List Act → List ProcessId
  | [] => []
  | .started _ _ id :: acts => id :: alive acts
  | .polled id true :: acts | .stopped id :: acts => (alive acts).erase id
  | _ :: acts => alive acts

/-- No start has been attempted while a process was alive. -/
def OneByOne (acts : List Act) : Prop :=
  Throughout (fun a earlier => a.IsStart → alive earlier = []) acts

/-- Then there never were two processes. -/
theorem OneByOne.length_alive_le {acts : List Act} (h : OneByOne acts) :
    (alive acts).length ≤ 1 := by
  induction acts with
  | nil => exact Nat.zero_le _
  | cons a acts ih =>
    obtain ⟨ha, hacts⟩ := throughout_cons.mp h
    have hlen := ih hacts
    cases a with
    | started executable flags id =>
      have hnone : alive acts = [] := ha trivial
      simp [alive, hnone]
    | polled id exited =>
      cases exited with
      | false => exact hlen
      | true => exact Nat.le_trans List.length_erase_le hlen
    | stopped id => exact Nat.le_trans List.length_erase_le hlen
    | refused => exact hlen
    | wrote => exact hlen

theorem OneByOne.of_suffix {acts earlier : List Act} (h : OneByOne acts)
    (hs : earlier <:+ acts) : OneByOne earlier := by
  intro a before ha
  exact h a before (ha.trans hs)

theorem OneByOne.cons {a : Act} {acts : List Act} (ha : ¬ a.IsStart) (h : OneByOne acts) :
    OneByOne (a :: acts) :=
  throughout_cons.mpr ⟨fun hstart => absurd hstart ha, h⟩

theorem OneByOne.start {a : Act} {acts : List Act} (hnone : alive acts = []) (h : OneByOne acts) :
    OneByOne (a :: acts) :=
  throughout_cons.mpr ⟨fun _ => hnone, h⟩

namespace Supervisor

variable {ω : Type}

/-- What every move of a supervisor keeps. -/
structure Orderly (s : Supervisor (Watched ω)) : Prop where
  generation_eq : s.generation = (starts s.acts).length
  alive_eq : alive s.acts = s.process.toList.map Process.id
  last : ∀ p, s.process = some p → (starts s.acts).head? = some (s.executable, s.flags, p.id)
  latch : s.startFailed = true → s.process = none
  oneByOne : OneByOne s.acts

theorem orderly_ofHost (host : ω) (executable : String) (flags : List String) :
    Orderly (ofHost (.ofHost host) executable flags) where
  generation_eq := rfl
  alive_eq := rfl
  last _ hp := nomatch hp
  latch h := nomatch h
  oneByOne := throughout_nil _

namespace Orderly

variable {s s' : Supervisor (Watched ω)} {p : Process}

theorem alive_of_none (h : Orderly s) (hp : s.process = none) : alive s.acts = [] := by
  rw [h.alive_eq, hp]
  rfl

theorem alive_of_some (h : Orderly s) (hp : s.process = some p) : alive s.acts = [p.id] := by
  rw [h.alive_eq, hp]
  rfl

/-- A process that has been sent something or has been looked at is still the last one started. -/
theorem keep (h : Orderly s) (hp : s.process = some p) {a : Act} (ha : ¬ a.IsStart)
    (hstarts : starts (a :: s.acts) = starts s.acts)
    (halive : alive (a :: s.acts) = alive s.acts) (inner : ω)
    (unread : List UInt8) :
    Orderly { s with host := ⟨inner, a :: s.acts⟩, process := some ⟨p.id, unread⟩ } where
  generation_eq := h.generation_eq.trans (congrArg List.length hstarts.symm)
  alive_eq := by
    have hone := h.alive_of_some hp
    exact halive.trans hone
  last q hq := by
    obtain rfl := Option.some.inj hq
    exact (congrArg List.head? hstarts).trans (h.last p hp)
  latch hf := absurd (hp.symm.trans (h.latch hf)) (Option.some_ne_none p)
  oneByOne := h.oneByOne.cons ha

/-- After the end of its process a supervisor holds none. -/
theorem finish (h : Orderly s) {acts : List Act} (halive : alive acts = [])
    (hstarts : starts acts = starts s.acts) (hone : OneByOne acts) (inner : ω) :
    Orderly { s with host := ⟨inner, acts⟩, process := none } where
  generation_eq := h.generation_eq.trans (congrArg List.length hstarts.symm)
  alive_eq := halive
  last _ hq := nomatch hq
  latch _ := rfl
  oneByOne := hone

theorem move (h : Orderly s) (hmove : Move s s') : Orderly s' := by
  cases hmove with
  | @alive p inner hp =>
    have hkeep := h.keep hp (a := .polled p.id false) id rfl rfl inner p.unread
    rwa [← hp] at hkeep
  | @answered p inner line written hp hkeeps =>
    exact h.keep hp (a := .wrote p.id line (some written)) id rfl rfl inner _
  | @exited p inner hp =>
    have hnone : alive (.polled p.id true :: s.acts) = [] := by
      simp [alive, h.alive_of_some hp]
    exact h.finish hnone rfl (h.oneByOne.cons (a := .polled p.id true) id) inner
  | @stopped p inner hp =>
    have hnone : alive (.stopped p.id :: s.acts) = [] := by
      simp [alive, h.alive_of_some hp]
    exact h.finish hnone rfl (h.oneByOne.cons (a := .stopped p.id) id) inner
  | @dropped p inner line answer hp =>
    have hnone : alive (.stopped p.id :: .wrote p.id line answer :: s.acts) = [] := by
      simp [alive, h.alive_of_some hp]
    have hwrote := h.oneByOne.cons (a := .wrote p.id line answer) id
    exact h.finish hnone rfl (hwrote.cons (a := .stopped p.id) id) inner
  | prepared flags hp =>
    refine ⟨h.generation_eq, h.alive_eq, ?_, fun hf => ?_, h.oneByOne⟩
    · intro q hq
      exact absurd (hp.symm.trans hq).symm (Option.some_ne_none q)
    · cases hf
  | started inner id hp hf =>
    have hnone := h.alive_of_none hp
    refine ⟨congrArg Nat.succ h.generation_eq, ?_, ?_, ?_, h.oneByOne.start hnone⟩
    · exact congrArg (List.cons id) hnone
    · intro q hq
      obtain rfl := Option.some.inj hq
      rfl
    · intro hf'
      exact absurd (hf.symm.trans hf') Bool.false_ne_true
  | refused inner cause hp hf =>
    exact ⟨h.generation_eq, h.alive_eq, h.last, fun _ => hp,
      h.oneByOne.start (h.alive_of_none hp)⟩

theorem moves (h : Orderly s) (hmoves : Moves s s') : Orderly s' := by
  induction hmoves with
  | refl => exact h
  | tail _ hmove ih => exact ih.move hmove

end Orderly

variable [Host ω]

theorem orderly_watched (host : ω) (executable : String) (flags : List String)
    (ops : List Operation) : Orderly (watched host executable flags ops) :=
  (orderly_ofHost host executable flags).moves (moves_after _ ops)

theorem generation_le_of_prefix (host : ω) (executable : String) (flags : List String)
    {before ops : List Operation} (h : before <+: ops) :
    (watched host executable flags before).generation ≤
      (watched host executable flags ops).generation := by
  obtain ⟨since, rfl⟩ := h
  have hmoves := moves_after (watched host executable flags before) since
  rw [watched, watched, after_append]
  exact hmoves.generation_le

/-! ## Flags -/

/-- The flags that an operation adds. -/
def Operation.added : Operation → List String
  | .addFlags flags => flags
  | _ => []

section

variable (s : Supervisor ω)

@[simp] theorem flags_poll : s.poll.flags = s.flags := by
  unfold poll
  split
  · rfl
  · split <;> rfl

@[simp] theorem flags_terminate : s.terminate.flags = s.flags := by
  unfold terminate
  split <;> rfl

@[simp] theorem flags_start : (start.run s).2.flags = s.flags := by
  simp only [start, Exchange.run_ofFun]
  split <;> rfl

@[simp] theorem flags_restart : (restart.run s).2.flags = s.flags := by
  simp [run_restart]

@[simp] theorem flags_ensureRunning : (ensureRunning.run s).2.flags = s.flags := by
  rw [run_ensureRunning]
  split_ifs <;> simp

@[simp] theorem flags_converse (command : Command) :
    ((converse command).run s).2.flags = s.flags := by
  simp only [converse, Exchange.run_ofFun]
  split
  · rfl
  · split <;> rfl

@[simp] theorem flags_droppingProcess {α : Type} (x : Exchange (Supervisor ω) α) :
    ((droppingProcess x).run s).2.flags = (x.run s).2.flags := by
  rcases h : x.run s with ⟨e | a, s'⟩
  · rw [run_droppingProcess_of_error h]
    simp only
    split_ifs <;> simp
  · rw [run_droppingProcess_of_ok h]

@[simp] theorem flags_call (command : Command) : ((call command).run s).2.flags = s.flags := by
  have hrunning := flags_ensureRunning s
  rw [run_call]
  rcases h : ensureRunning.run s with ⟨e | u, s'⟩
  · rw [h] at hrunning
    exact hrunning
  · rw [h] at hrunning
    simp only [flags_droppingProcess, flags_converse]
    exact hrunning

end

/-- An operation adds its flags, and only one takes flags away. -/
theorem flags_perform (s : Supervisor ω) {o : Operation} (h : o ≠ .clearFlags) :
    (s.perform o).flags = s.flags ++ o.added := by
  cases o with
  | ensureRunning => simp [perform, Operation.added]
  | call command => simp [perform, Operation.added]
  | restart => simp [perform, Operation.added]
  | shutdown => simp [perform, Operation.added, shutdown]
  | addFlags flags => exact flags_restart { s with flags := s.flags ++ flags }
  | clearFlags => exact absurd rfl h

theorem flags_perform_clearFlags (s : Supervisor ω) : (s.perform .clearFlags).flags = [] :=
  flags_restart { s with flags := [] }

/-- The flags are those there were, or none after the last time they were cleared, and then all
that have been added since. -/
theorem flags_after (s : Supervisor ω) (ops : List Operation) :
    ∃ base since, (base = s.flags ∧ since = ops ∨
        base = [] ∧ ∃ before, ops = before ++ .clearFlags :: since) ∧
      .clearFlags ∉ since ∧ (s.after ops).flags = base ++ since.flatMap Operation.added := by
  induction ops using List.reverseRecOn with
  | nil => exact ⟨s.flags, [], Or.inl ⟨rfl, rfl⟩, List.not_mem_nil, by simp⟩
  | append_singleton ops o ih =>
    rw [after_concat]
    by_cases ho : o = .clearFlags
    · subst ho
      exact ⟨[], [], Or.inr ⟨rfl, ops, rfl⟩, List.not_mem_nil, flags_perform_clearFlags _⟩
    · obtain ⟨base, since, hbase, hno, hflags⟩ := ih
      refine ⟨base, since ++ [o], ?_, ?_, ?_⟩
      · rcases hbase with ⟨hbase, rfl⟩ | ⟨hbase, before, rfl⟩
        · exact Or.inl ⟨hbase, rfl⟩
        · exact Or.inr ⟨hbase, before, by simp⟩
      · intro hmem
        rcases List.mem_append.mp hmem with hmem | hmem
        · exact hno hmem
        · exact ho (List.mem_singleton.mp hmem).symm
      · rw [flags_perform _ ho, hflags]
        simp

/-- **The life of server processes.** After any run of a supervisor its number is that of the
starts that succeeded, and no run takes it back; the process it holds is the last one started, with
the flags that are set now; a start has failed only if none is held; the flags are those of the
beginning, or none after they were cleared, and then all that were added, whatever became of the
restarts; and a process has been started only when the one before it had ended. -/
theorem lifecycle_after (host : ω) (executable : String) (flags : List String)
    (ops : List Operation) :
    (watched host executable flags ops).unwatched = (ofHost host executable flags).after ops ∧
      Orderly (watched host executable flags ops) ∧
      (∀ before, before <+: ops → (watched host executable flags before).generation ≤
        (watched host executable flags ops).generation) ∧
      (∃ base since, (base = flags ∧ since = ops ∨
          base = [] ∧ ∃ before, ops = before ++ .clearFlags :: since) ∧
        .clearFlags ∉ since ∧
        (watched host executable flags ops).flags = base ++ since.flatMap Operation.added) ∧
      ∀ earlier, earlier <:+ (watched host executable flags ops).acts →
        (alive earlier).length ≤ 1 := by
  have horderly := orderly_watched host executable flags ops
  refine ⟨unwatched_watched host executable flags ops, horderly, ?_, ?_, ?_⟩
  · intro before hbefore
    exact generation_le_of_prefix host executable flags hbefore
  · exact flags_after (ofHost (Watched.ofHost host) executable flags) ops
  · intro earlier hearlier
    exact (horderly.oneByOne.of_suffix hearlier).length_alive_le

end Supervisor

end EditorBridge
