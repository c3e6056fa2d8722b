import EditorBridge.Proofs.Server.Frame
import EditorBridge.Proofs.Supervisor.Move
import EditorBridge.Rehearsal.Script

/-!
# Answers belong to their commands

Commands and answers have no numbers: which answer belongs to which command is only known as long as
a process is sent a command when it has answered the ones before, and all it has written has been
read. This holds at every write of every run (`answers_paired`), if a process writes one line at
most for each line it is sent. The invariant behind it is `Paired`: whatever goes wrong with an
answer, either it was a complete line and has been read to its end, or the process has been ended.
-/

namespace EditorBridge

open EditorBridge.Frame (lineFeed IsCompleteLine)

/-- A process that was sent a line has written one line at most. -/
def Act.IsOneLine : Act → Prop
  | .wrote _ _ (some bytes) => lineFeed ∉ bytes.dropLast
  | _ => True

instance : DecidablePred Act.IsOneLine
  | .wrote _ _ (some bytes) => inferInstanceAs (Decidable (lineFeed ∉ bytes.dropLast))
  | .wrote _ _ none => isTrue trivial
  | .started .. => isTrue trivial
  | .refused .. => isTrue trivial
  | .polled .. => isTrue trivial
  | .stopped .. => isTrue trivial

/-- The lines that were sent, the last one first, each with its process and what this wrote. -/
def writes : List Act → List (ProcessId × String × Option (List UInt8))
  | [] => []
  | .wrote id line answer :: acts => (id, line, answer) :: writes acts
  | _ :: acts => writes acts

/-- What a process has written since its start and nobody has read, if each of its answers was read
by one piece. -/
def unread (id : ProcessId) : List Act → List UInt8
  | [] => []
  | .started _ _ id' :: acts => if id' = id then [] else unread id acts
  | .wrote id' _ (some bytes) :: acts =>
    if id' = id then Frame.afterPiece (unread id acts ++ bytes) else unread id acts
  | _ :: acts => unread id acts

/-- The lines that a process was sent since its start and has not answered by a complete line. -/
def owed (id : ProcessId) : List Act → List String
  | [] => []
  | .started _ _ id' :: acts => if id' = id then [] else owed id acts
  | .wrote id' line answer :: acts =>
    if id' = id ∧ lineFeed ∉ answer.getD [] then line :: owed id acts else owed id acts
  | _ :: acts => owed id acts

/-- A process owes no answer, and all it has written has been read. -/
def Settled (id : ProcessId) (acts : List Act) : Prop := owed id acts = [] ∧ unread id acts = []

/-- Only a process that is settled is sent a line. -/
def SettledWrites (acts : List Act) : Prop :=
  Throughout (fun a earlier => ∀ id line answer, a = .wrote id line answer → Settled id earlier)
    acts

theorem settled_started (executable : String) (flags : List String) (id : ProcessId)
    (acts : List Act) : Settled id (.started executable flags id :: acts) := by
  simp [Settled, owed, unread]

/-- A complete line that has been read leaves a process settled. -/
theorem Settled.wrote {id : ProcessId} {acts : List Act} (h : Settled id acts) (line : String)
    {bytes : List UInt8} (hline : lineFeed ∈ bytes) (hread : Frame.afterPiece bytes = []) :
    Settled id (.wrote id line (some bytes) :: acts) := by
  obtain ⟨howed, hunread⟩ := h
  constructor
  · simp [owed, hline, howed]
  · simp [unread, hunread, hread]

theorem SettledWrites.cons {a : Act} {acts : List Act} (h : SettledWrites acts)
    (ha : ∀ id line answer, a ≠ .wrote id line answer) : SettledWrites (a :: acts) :=
  throughout_cons.mpr ⟨fun id line answer heq => absurd heq (ha id line answer), h⟩

theorem SettledWrites.wrote {id : ProcessId} {acts : List Act} (h : SettledWrites acts)
    (hid : Settled id acts) (line : String) (answer : Option (List UInt8)) :
    SettledWrites (.wrote id line answer :: acts) := by
  refine throughout_cons.mpr ⟨?_, h⟩
  intro id' line' answer' heq
  cases heq
  exact hid

namespace Supervisor

variable {ω : Type}

/-- What every move keeps, if for each line a process writes one line at most. -/
structure Paired (s : Supervisor (Watched ω)) : Prop where
  unread_eq : ∀ p, s.process = some p → p.unread = unread p.id s.acts
  settled : ∀ p, s.process = some p → Settled p.id s.acts
  writes : SettledWrites s.acts

theorem paired_ofHost (host : ω) (executable : String) (flags : List String) :
    Paired (ofHost (.ofHost host) executable flags) where
  unread_eq _ hp := nomatch hp
  settled _ hp := nomatch hp
  writes := throughout_nil _

/-- **An answer that keeps its process** was one complete line, and nothing is left of it. -/
theorem complete_of_kept {written : List UInt8} (hone : lineFeed ∉ written.dropLast)
    (hkeeps : ∀ e, (Frame.readOutcome written).1 = .error e → breaksPipe e = false) :
    IsCompleteLine written ∧ Frame.afterPiece written = [] ∧
      ∃ v, Frame.ofPiece written = .ok v ∧
        (Frame.readOutcome written).1 = (Outcome.ofFrame v).mapError .protocol := by
  obtain ⟨-, hclosed | ⟨cause, hcause⟩ | ⟨v, hv, hanswer⟩⟩ := Frame.readOutcome_cases written
  · exact absurd (hkeeps _ hclosed) (by simp [breaksPipe])
  · exact absurd (hkeeps _ hcause) (by simp [breaksPipe])
  · obtain ⟨hpiece, hnil⟩ := Frame.piece_eq_of_ofPiece hv hone
    rw [hpiece] at hv
    exact ⟨⟨Frame.getLast?_of_ofPiece hv, hone⟩, hnil, v, hv, hanswer⟩

namespace Paired

variable {s s' : Supervisor (Watched ω)} {p : Process}

/-- All that the process of a supervisor has written has been read. -/
theorem unread_eq_nil (h : Paired s) (hp : s.process = some p) : p.unread = [] :=
  (h.unread_eq p hp).trans (h.settled p hp).2

/-- A supervisor without a process has nothing to show but what it wrote. -/
theorem of_none (hp : s.process = none) (hwrites : SettledWrites s.acts) : Paired s where
  unread_eq q hq := absurd (hp.symm.trans hq).symm (Option.some_ne_none q)
  settled q hq := absurd (hp.symm.trans hq).symm (Option.some_ne_none q)
  writes := hwrites

theorem move (h : Paired s) (hmove : Move s s') (hone : ∀ a ∈ s'.acts, a.IsOneLine) :
    Paired s' := by
  cases hmove with
  | alive inner hp => exact ⟨h.unread_eq, h.settled, h.writes.cons nofun⟩
  | exited inner hp => exact of_none rfl (h.writes.cons nofun)
  | stopped inner hp => exact of_none rfl (h.writes.cons nofun)
  | prepared flags hp => exact of_none hp h.writes
  | refused inner cause hp hf => exact of_none hp (h.writes.cons nofun)
  | @dropped p inner line answer hp =>
    have hwrote := h.writes.wrote (h.settled p hp) line answer
    exact of_none rfl (hwrote.cons nofun)
  | started inner id hp hf =>
    have hsettled := settled_started s.executable s.flags id s.acts
    refine ⟨?_, ?_, h.writes.cons nofun⟩
    · intro q hq
      obtain rfl := Option.some.inj hq
      exact hsettled.2.symm
    · intro q hq
      obtain rfl := Option.some.inj hq
      exact hsettled
  | @answered p inner line written hp hkeeps =>
    have hsettled := h.settled p hp
    have hempty := h.unread_eq_nil hp
    rw [hempty, List.nil_append] at hkeeps ⊢
    -- what was read is the whole answer to this line, since nothing was left of an earlier one
    obtain ⟨hcomplete, hnil, -⟩ :=
      complete_of_kept (hone (.wrote p.id line (some written)) List.mem_cons_self) hkeeps
    have hafter := hsettled.wrote line (List.mem_of_getLast? hcomplete.1) hnil
    have hrest : (Frame.readOutcome written).2 = [] :=
      (Frame.readOutcome_cases written).1.trans hnil
    refine ⟨?_, ?_, h.writes.wrote hsettled line (some written)⟩
    · intro q hq
      obtain rfl := Option.some.inj hq
      exact hrest.trans hafter.2.symm
    · intro q hq
      obtain rfl := Option.some.inj hq
      exact hafter

theorem moves (h : Paired s) (hmoves : Moves s s') (hone : ∀ a ∈ s'.acts, a.IsOneLine) :
    Paired s' := by
  induction hmoves with
  | refl => exact h
  | tail _ hmove ih => exact (ih fun a ha => hone a (hmove.acts_suffix.mem ha)).move hmove hone

end Paired

/-! ## What a call answers -/

variable [Host ω]

theorem writes_poll (s : Supervisor (Watched ω)) : writes s.poll.acts = writes s.acts := by
  rcases s.poll_cases with ⟨-, h⟩ | ⟨p, inner, -, h | h⟩ <;> rw [h]
  · rfl
  · rfl

theorem writes_start (s : Supervisor (Watched ω)) :
    writes (start.run s).2.acts = writes s.acts := by
  rcases s.start_cases with ⟨inner, cause, h⟩ | ⟨inner, id, h⟩ <;> rw [h] <;> rfl

theorem writes_ensureRunning (s : Supervisor (Watched ω)) :
    writes (ensureRunning.run s).2.acts = writes s.acts := by
  rw [run_ensureRunning]
  split_ifs
  · exact writes_poll s
  · exact writes_poll s
  · exact (writes_start s.poll).trans (writes_poll s)

/-- What becomes of a supervisor when a call is answered: its last act, and its only write, was to
send the line to a process, which answered it by a complete line, and the outcome was read from
this line. -/
structure Answered (s s' : Supervisor (Watched ω)) (command : Command) (outcome : Outcome)
    (id : ProcessId) (bytes : List UInt8) (earlier : List Act) : Prop where
  acts_eq : s'.acts = .wrote id command.line (some bytes) :: earlier
  suffix : s.acts <:+ earlier
  writes_eq : writes earlier = writes s.acts
  complete : IsCompleteLine bytes
  parsed : ∃ v, Frame.ofPiece bytes = .ok v ∧ Outcome.ofFrame v = .ok outcome
  process_eq : s'.process = some ⟨id, []⟩

/-- A call that is answered sends its line to a process there is, without a write before it. -/
theorem exchange_of_run_call {s s' : Supervisor (Watched ω)} {command : Command}
    {outcome : Outcome} (hrun : (call command).run s = (.ok outcome, s')) :
    ∃ s₁ p, Moves s s₁ ∧ writes s₁.acts = writes s.acts ∧ s₁.process = some p ∧
      (droppingProcess (converse command)).run s₁ = (.ok outcome, s') := by
  have hmoves := moves_ensureRunning s
  have hwrites := writes_ensureRunning s
  rw [run_call] at hrun
  rcases hrunning : ensureRunning.run s with ⟨e | u, s₁⟩
  · rw [hrunning] at hrun
    cases hrun
  · rw [hrunning] at hrun hmoves hwrites
    cases hp : s₁.process with
    | none =>
      simp only [droppingProcess, converse, Exchange.run_ofFun, hp] at hrun
      cases hrun
    | some p => exact ⟨s₁, p, hmoves, hwrites, hp, hrun⟩

theorem Paired.answered {s s' : Supervisor (Watched ω)} (h : Paired s) {command : Command}
    {outcome : Outcome} (hrun : (call command).run s = (.ok outcome, s'))
    (hone : ∀ a ∈ s'.acts, a.IsOneLine) :
    ∃ id bytes earlier, Answered s s' command outcome id bytes earlier := by
  obtain ⟨s₁, p, hmoves, hwrites, hp, hexchange⟩ := exchange_of_run_call hrun
  have hsent := moves_exchange s₁ command
  rw [hexchange] at hsent
  have hpaired := h.moves hmoves fun a ha => hone a (hsent.acts_suffix.mem ha)
  have hempty := hpaired.unread_eq_nil hp
  rcases exchange_cases hp command with
    ⟨inner, written, hkeeps, heq⟩ | ⟨inner, answer, e, -, heq⟩
  · -- nothing was left of an earlier answer, so that the outcome was read from this one
    rw [hempty, List.nil_append] at hkeeps heq
    obtain ⟨hanswer, rfl⟩ := Prod.mk.inj (heq.symm.trans hexchange)
    obtain ⟨hcomplete, hnil, v, hv, hparsed⟩ :=
      complete_of_kept (hone (.wrote p.id command.line (some written)) List.mem_cons_self) hkeeps
    have hrest : (Frame.readOutcome written).2 = [] :=
      (Frame.readOutcome_cases written).1.trans hnil
    refine ⟨p.id, written, s₁.acts, rfl, hmoves.acts_suffix, hwrites, hcomplete, ?_, ?_⟩
    · exact ⟨v, hv, Frame.eq_ok_of_mapError (hparsed.symm.trans hanswer)⟩
    · rw [hrest]
  · rw [heq] at hexchange
    cases hexchange

theorem paired_watched {host : ω} {executable : String} {flags : List String}
    {ops : List Operation} (hone : ∀ a ∈ (watched host executable flags ops).acts, a.IsOneLine) :
    Paired (watched host executable flags ops) :=
  (paired_ofHost host executable flags).moves (moves_after _ ops) hone

/-- **Answers belong to their commands.** In every run in which a process writes one line at most
for each line it is sent, a process is sent a line only if it has answered all the lines before and
all of its answers have been read to their ends; and every outcome of a call was read from the one
complete line that the process wrote when it was sent the line of this call. -/
theorem answers_paired (host : ω) (executable : String) (flags : List String)
    (ops : List Operation)
    (hone : ∀ a ∈ (watched host executable flags ops).acts, a.IsOneLine) :
    (watched host executable flags ops).unwatched = (ofHost host executable flags).after ops ∧
      Paired (watched host executable flags ops) ∧
      ∀ before command outcome, before ++ [.call command] <+: ops →
        ((call command).run ((ofHost host executable flags).after before)).1 = .ok outcome →
        ∃ id bytes earlier, Answered (watched host executable flags before)
          (watched host executable flags (before ++ [.call command])) command outcome
          id bytes earlier := by
  refine ⟨unwatched_watched host executable flags ops, paired_watched hone, ?_⟩
  rintro before command outcome ⟨since, rfl⟩ houtcome
  have hcall : ∀ a ∈ (watched host executable flags (before ++ [.call command])).acts,
      a.IsOneLine := by
    intro a ha
    rw [watched, after_append] at hone
    exact hone a ((moves_after _ since).acts_suffix.mem ha)
  rw [watched_concat] at hcall ⊢
  have hbefore : Paired (watched host executable flags before) :=
    paired_watched fun a ha =>
      hcall a ((moves_perform _ (.call command)).acts_suffix.mem ha)
  rw [← unwatched_watched, mirrors_call command] at houtcome
  exact hbefore.answered (Prod.ext houtcome rfl) hcall

/-! A process that answers one command and then writes what is no JSON, and another one that breaks
the protocol once and rejects a command before it answers. -/

/-- What the processes write, one line for each command. -/
def mishaps : Rehearsal.Script :=
  .ofLines ["[\"return\",1]", "nonsense", "[1]", "[\"failure\",\"no\"]", "[\"return\",2]"]

def refreshes (n : Nat) : List Operation := List.replicate n (.call Command.refresh)

theorem answered_mishaps :
    ∃ outcome bytes earlier, Answered (watched mishaps "server" [] (refreshes 4))
      (watched mishaps "server" [] (refreshes 5)) Command.refresh outcome 1 bytes earlier := by
  have hone : ∀ a ∈ (watched mishaps "server" [] (refreshes 5)).acts, a.IsOneLine := by
    decide +kernel
  have hprocess : (watched mishaps "server" [] (refreshes 5)).process = some ⟨1, []⟩ := by
    decide +kernel
  have hok : ((call Command.refresh).run
      ((ofHost mishaps "server" []).after (refreshes 4))).1.toOption.isSome = true := by
    decide +kernel
  obtain ⟨-, -, hanswers⟩ := answers_paired mishaps "server" [] (refreshes 5) hone
  rcases hrun : ((call Command.refresh).run
    ((ofHost mishaps "server" []).after (refreshes 4))).1 with e | outcome
  · rw [hrun] at hok
    cases hok
  · obtain ⟨id, bytes, earlier, h⟩ :=
      hanswers (refreshes 4) Command.refresh outcome (List.prefix_refl _) hrun
    obtain rfl : id = 1 := by
      have hid := h.process_eq.symm.trans hprocess
      exact congrArg Process.id (Option.some.inj hid)
    exact ⟨outcome, bytes, earlier, h⟩

end Supervisor

end EditorBridge
