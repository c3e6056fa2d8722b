import EditorBridge.Proofs.Server.Talk
import EditorBridge.Proofs.Sync.Delta

/-!
# What a feed tells

The tells of a feed are a chunk and some of the windows that follow it, and every one of them but
the last found the server unsatisfied (`IsFeed`, `run_feedFrom`). The windows are the lines in their
order, and none is empty (`flatten_windows`, `ne_nil_of_mem_windows`), so the texts told make up
the text of the chunk and of a number of lines after it (`IsFeed.told_eq`). If the chunk is a
delta, they make up a longer delta (`told_feed_delta`).
-/

namespace EditorBridge

open Text

namespace Command

/-- The text of a chunk ends every line of it. Only the chunk without lines would be told as one
empty line. -/
theorem toList_chunkText {lines : List String} (h : lines ≠ []) :
    (chunkText lines).toList = chars lines := by
  unfold chunkText
  induction lines with
  | nil => exact absurd rfl h
  | cons line rest ih =>
    by_cases hr : rest = []
    · subst hr
      simp [String.intercalate_singleton]
    · rw [String.intercalate_cons_of_ne_nil hr, String.append_assoc, String.toList_append,
        ih hr]
      simp

end Command

namespace Feed

/-! ## Windows -/

variable {α : Type}

theorem flatten_windows (lines : List α) : (windows lines).flatten = lines := by
  induction lines using windows.induct with
  | case1 => simp [windows]
  | case2 line lines ih =>
    rw [windows, List.flatten_cons, ih, List.take_append_drop]

theorem ne_nil_of_mem_windows {lines : List α} {chunk : List α} (h : chunk ∈ windows lines) :
    chunk ≠ [] := by
  induction lines using windows.induct with
  | case1 => simp [windows] at h
  | case2 line lines ih =>
    rw [windows] at h
    rcases List.mem_cons.mp h with rfl | h
    · simp [window]
    · exact ih h

theorem flatten_take_windows (lines : List α) (k : Nat) :
    ((windows lines).take k).flatten = lines.take ((windows lines).take k).flatten.length := by
  have h : ((windows lines).take k).flatten <+: lines := by
    refine ⟨((windows lines).drop k).flatten, ?_⟩
    rw [← List.flatten_append, List.take_append_drop, flatten_windows]
  exact List.prefix_iff_eq_take.mp h

/-! ## The talk of a feed -/

/-- The entries `init` and after them `last` are the tells of a feed: the chunk, and as many of
the groups of lines that follow it as it took until the server was satisfied, or failed to say, or
there were no more. -/
structure IsFeed (kind : TellKind) (chunk : List String) (rest : List (List String))
    (init : List Entry) (last : Entry) : Prop where
  commands : (init ++ [last]).map Entry.command =
    Command.tell kind chunk :: (rest.take init.length).map (Command.tell .ending)
  unsatisfied : ∀ e ∈ init, e.satisfied = .ok false
  exhausted : last.satisfied = .ok false → init.length = rest.length

/-- The texts told make up the text of the lines told. -/
theorem IsFeed.told_eq {kind : TellKind} {chunk : List String} {rest : List (List String)}
    {init : List Entry} {last : Entry} (h : IsFeed kind chunk rest init last)
    (hchunk : chunk ≠ []) (hrest : ∀ c ∈ rest, c ≠ []) :
    told (init ++ [last]) = chars (chunk ++ (rest.take init.length).flatten) := by
  have hgroups : ∀ gs : List (List String), (∀ c ∈ gs, c ≠ []) →
      gs.flatMap (fun c => (Command.chunkText c).toList) = chars gs.flatten := by
    intro gs hgs
    induction gs with
    | nil => rfl
    | cons c gs ih =>
      rw [List.flatMap_cons, List.flatten_cons, chars_append,
        Command.toList_chunkText (hgs c List.mem_cons_self),
        ih fun c hc => hgs c (List.mem_cons_of_mem _ hc)]
  rw [told_eq_flatMap, h.commands, List.flatMap_cons, List.flatMap_map, chars_append,
    Command.told_tell, Command.toList_chunkText hchunk]
  simp only [Command.told_tell]
  rw [hgroups _ fun c hc => hrest c (List.mem_of_mem_take hc)]

variable {σ : Type} [Transport σ]

theorem isFeed_single {kind : TellKind} {chunk : List String} {rest : List (List String)}
    {last : Entry} (hcommand : last.command = Command.tell kind chunk)
    (hlast : last.satisfied = .ok false → rest = []) : IsFeed kind chunk rest [] last where
  commands := by simp [hcommand]
  unsatisfied := fun _ he => absurd he List.not_mem_nil
  exhausted := fun h => by simp [hlast h]

theorem IsFeed.cons {kind : TellKind} {chunk next : List String} {rest : List (List String)}
    {init : List Entry} {first last : Entry} (h : IsFeed .ending next rest init last)
    (hcommand : first.command = Command.tell kind chunk) (hfirst : first.satisfied = .ok false) :
    IsFeed kind chunk (next :: rest) (first :: init) last where
  commands := by
    rw [List.cons_append, List.map_cons, h.commands, hcommand]
    rfl
  unsatisfied := by
    intro e he
    rcases List.mem_cons.mp he with rfl | he
    · exact hfirst
    · exact h.unsatisfied e he
  exhausted := fun hlast => congrArg (· + 1) (h.exhausted hlast)

theorem run_feedFrom_eq (kind : TellKind) (chunk : List String) (endLine rounds sent : Nat)
    (rest : List (List String)) (s : σ) :
    (feedFrom kind chunk endLine rounds sent rest).run s =
      match (Transport.entry s (Command.tell kind chunk)).satisfied, rest with
      | .error c, _ => (.error c, Transport.next s (Command.tell kind chunk))
      | .ok false, following :: rest =>
        (feedFrom .ending following (endLine + following.length) (rounds + 1)
          (sent + chunk.length) rest).run (Transport.next s (Command.tell kind chunk))
      | .ok satisfied, _ =>
        (.ok ⟨endLine, rounds + 1, sent + chunk.length, satisfied⟩,
          Transport.next s (Command.tell kind chunk)) := by
  rw [feedFrom, tell, run_request_bind]
  unfold Entry.satisfied
  cases (Transport.entry s (Command.tell kind chunk)).reading fun answer =>
      some answer.isTruthy with
  | error c => rfl
  | ok satisfied => cases satisfied <;> cases rest <;> rfl

/-- **The tells of a feed, and its report.** The last tell decides how the feed ends. -/
theorem run_feedFrom (kind : TellKind) (chunk : List String) (endLine rounds sent : Nat)
    (rest : List (List String)) (s : σ) :
    ∃ init last s', Talk s (init ++ [last]) s' ∧ IsFeed kind chunk rest init last ∧
      (feedFrom kind chunk endLine rounds sent rest).run s =
        (last.satisfied.map fun satisfied =>
          ⟨endLine + (rest.take init.length).flatten.length, rounds + init.length + 1,
            sent + chunk.length + (rest.take init.length).flatten.length, satisfied⟩, s') := by
  -- the numbers of the report are kept general: each round adds to them
  induction rest generalizing kind chunk endLine rounds sent s with
  | nil =>
    refine ⟨[], _, _, Talk.single s (Command.tell kind chunk), isFeed_single rfl fun _ => rfl, ?_⟩
    rw [run_feedFrom_eq]
    rcases (Transport.entry s (Command.tell kind chunk)).satisfied with c | (_ | _) <;> rfl
  | cons following rest ih =>
    by_cases hfirst : (Transport.entry s (Command.tell kind chunk)).satisfied = .ok false
    · obtain ⟨init, last, s', htalk, hfeed, hrun⟩ := ih .ending following
        (endLine + following.length) (rounds + 1) (sent + chunk.length)
        (Transport.next s (Command.tell kind chunk))
      refine ⟨_ :: init, last, s', .cons htalk, hfeed.cons rfl hfirst, ?_⟩
      rw [run_feedFrom_eq, hfirst]
      simp only [hrun, List.length_cons, List.take_succ_cons, List.flatten_cons,
        List.length_append]
      congr 2
      funext satisfied
      congr 1 <;> omega
    · refine ⟨[], _, _, Talk.single s (Command.tell kind chunk),
        isFeed_single rfl fun h => absurd h hfirst, ?_⟩
      rw [run_feedFrom_eq]
      rcases h : (Transport.entry s (Command.tell kind chunk)).satisfied with c | (_ | _)
      · rfl
      · exact absurd h hfirst
      · rfl

/-- The number of lines that a feed told after its first chunk. -/
def more (lines : List String) (endLine : Nat) (init : List Entry) : Nat :=
  ((windows (lines.drop endLine)).take init.length).flatten.length

/-- **What the feed of a delta tells is a longer delta.** -/
theorem told_feed_delta {lines : List String} {p : Position} {endLine : Nat} (hp : 1 ≤ p.line)
    (hend : p.line ≤ endLine) (hlen : endLine ≤ lines.length) {init : List Entry} {last : Entry}
    (h : IsFeed .struct (Sync.delta lines p endLine) (windows (lines.drop endLine)) init last) :
    told (init ++ [last]) =
      chars (Sync.delta lines p (endLine + more lines endLine init)) := by
  have hchunk : Sync.delta lines p endLine ≠ [] := by
    rw [Ne, Sync.delta_eq_nil_iff]
    omega
  rw [h.told_eq hchunk fun c hc => ne_nil_of_mem_windows hc, flatten_take_windows,
    Sync.delta_append hp hend hlen]
  rfl

theorem add_more_le {lines : List String} {endLine : Nat} (hlen : endLine ≤ lines.length)
    (init : List Entry) : endLine + more lines endLine init ≤ lines.length := by
  have h := congrArg List.length (flatten_take_windows (lines.drop endLine) init.length)
  rw [List.length_take, List.length_drop] at h
  unfold more
  omega

end Feed

end EditorBridge
