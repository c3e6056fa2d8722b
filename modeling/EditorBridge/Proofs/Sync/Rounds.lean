import EditorBridge.Proofs.Sync.Feed
import EditorBridge.Proofs.TextServer.Basic

/-!
# The rounds of a feed

The windows of some lines are known by their numbers: there is one for every twenty lines begun
(`length_windows`), each has the twenty lines after those of the windows before it
(`getElem?_windows`), and the first `n` of them make up the first `20 * n` lines
(`flatten_take_windows_eq`).

So what a feed tells in each round can be said without the feed (`nthTell`), and its report follows
from the number of rounds and from the last answer alone (`feed_accounts`).
-/

namespace EditorBridge.Feed

open Text

/-! ## The windows by their numbers -/

section

variable {α : Type}

theorem length_windows (lines : List α) :
    (windows lines).length = (lines.length + (window - 1)) / window := by
  induction lines using windows.induct with
  | case1 => simp [windows, window]
  | case2 line lines ih =>
    rw [windows, List.length_cons, ih, List.length_drop, List.length_cons, window]
    omega

theorem getElem?_windows (lines : List α) (i : Nat) :
    (windows lines)[i]? =
      if window * i < lines.length then some ((lines.drop (window * i)).take window) else none := by
  induction lines using windows.induct generalizing i with
  | case1 => simp [windows]
  | case2 line lines ih =>
    rw [windows]
    cases i with
    | zero => simp
    | succ i =>
      have hlt : window * i < ((line :: lines).drop window).length ↔
          window * (i + 1) < (line :: lines).length := by
        rw [List.length_drop, Nat.mul_succ]
        omega
      rw [List.getElem?_cons_succ, ih, List.drop_drop, Nat.mul_succ, Nat.add_comm]
      simp only [hlt, Nat.mul_succ, Nat.add_comm]

theorem take_windows {lines : List α} {n : Nat} (h : n ≤ (windows lines).length) :
    (windows lines).take n =
      (List.range n).map fun i => (lines.drop (window * i)).take window := by
  refine List.ext_getElem? fun i => ?_
  by_cases hi : i < n
  · have hlt : window * i < lines.length := by
      rw [length_windows, window] at h
      rw [window]
      omega
    rw [List.getElem?_take_of_lt hi, getElem?_windows, if_pos hlt, List.getElem?_map,
      List.getElem?_range hi]
    rfl
  · rw [List.getElem?_eq_none (by simp; omega), List.getElem?_eq_none (by simp; omega)]

/-- **The first windows make up the first lines.** -/
theorem flatten_take_windows_eq (lines : List α) (n : Nat) :
    ((windows lines).take n).flatten = lines.take (window * n) := by
  induction lines using windows.induct generalizing n with
  | case1 => simp [windows]
  | case2 line lines ih =>
    rw [windows]
    cases n with
    | zero => simp
    | succ n =>
      rw [List.take_succ_cons, List.flatten_cons, ih, Nat.mul_succ, Nat.add_comm, List.take_add]

end

/-! ## The tells by their numbers -/

/-- What is told in a round: the chunk in the first one, which ends at line `endLine`, and in each
later one the window after the lines told before. -/
def nthTell (lines chunk : List String) (endLine : Nat) : Nat → Command
  | 0 => .tell .struct chunk
  | n + 1 => .tell .ending ((lines.drop (endLine + window * n)).take window)

theorem IsFeed.length_le {kind : TellKind} {chunk : List String} {rest : List (List String)}
    {init : List Entry} {last : Entry} (h : IsFeed kind chunk rest init last) :
    init.length ≤ rest.length := by
  have hlength := congrArg List.length h.commands
  simp only [List.length_map, List.length_append, List.length_cons, List.length_take,
    List.length_nil] at hlength
  omega

theorem IsFeed.commands_eq {lines chunk : List String} {endLine : Nat} {init : List Entry}
    {last : Entry} (h : IsFeed .struct chunk (windows (lines.drop endLine)) init last) :
    (init ++ [last]).map Entry.command =
      (List.range (init.length + 1)).map (nthTell lines chunk endLine) := by
  have hwindows : (windows (lines.drop endLine)).take init.length =
      (List.range init.length).map fun n => (lines.drop (endLine + window * n)).take window := by
    rw [take_windows h.length_le]
    simp only [List.drop_drop]
  rw [h.commands, hwindows, List.range_succ_eq_map, List.map_cons, List.map_map, List.map_map]
  rfl

variable {σ : Type} [Transport σ]

/-- **The account of a feed.** All tells but the last are answered that the server is not satisfied.
If the last one fails, the feed fails with it; otherwise its report says how many tells there were,
which lines they reached, how many lines were told, and whether the server is satisfied, which it
can fail to be only when there are no more lines. -/
theorem feed_accounts (lines chunk : List String) {endLine : Nat} (hend : endLine ≤ lines.length)
    (s : σ) :
    ∃ init last result r,
      (feed lines chunk endLine).run (Recorded.ofTransport s) = (result, r) ∧
      r.history = init ++ [last] ∧
      (init ++ [last]).map Entry.command =
        (List.range (init.length + 1)).map (nthTell lines chunk endLine) ∧
      init.length ≤ (lines.length - endLine + (window - 1)) / window ∧
      (∀ e ∈ init, e.satisfied = .ok false) ∧
      (∀ cause, last.satisfied = .error cause → result = .error cause) ∧
      ∀ satisfied, last.satisfied = .ok satisfied →
        ∃ report, result = .ok report ∧ report.rounds = init.length + 1 ∧
          report.endLine = min lines.length (endLine + window * init.length) ∧
          report.linesSent = chunk.length + (report.endLine - endLine) ∧
          report.satisfied = satisfied ∧ (satisfied = false → report.endLine = lines.length) := by
  obtain ⟨init, last, r, htalk, hfeed, hrun⟩ :=
    run_feedFrom .struct chunk endLine 0 0 (windows (lines.drop endLine)) (Recorded.ofTransport s)
  have hlength : (windows (lines.drop endLine)).length =
      (lines.length - endLine + (window - 1)) / window := by
    rw [length_windows, List.length_drop]
  have htold : ((windows (lines.drop endLine)).take init.length).flatten.length =
      min (window * init.length) (lines.length - endLine) := by
    rw [flatten_take_windows_eq, List.length_take, List.length_drop]
  have hwhole : (feed lines chunk endLine : Exchange (Recorded σ) FeedReport) =
      feedFrom .struct chunk endLine 0 0 (windows (lines.drop endLine)) := by
    rw [feed, Nat.min_eq_left hend]
  rw [← hwhole, htold] at hrun
  refine ⟨init, last, _, r, hrun, htalk.history_eq, hfeed.commands_eq, hlength ▸ hfeed.length_le,
    hfeed.unsatisfied, fun cause hlast => ?_, fun satisfied hlast => ?_⟩
  · rw [hlast]
    rfl
  · rw [hlast]
    refine ⟨_, rfl, ?_, ?_, ?_, rfl, fun hunsatisfied => ?_⟩
    · exact congrArg (· + 1) (Nat.zero_add _)
    · simp only
      omega
    · simp only
      omega
    · have hall := (hfeed.exhausted (hunsatisfied ▸ hlast)).trans hlength
      simp only [window] at hall ⊢
      omega

/-- A server that asks for more lines once. -/
def hungryOnce : TextServer := ⟨1, .fresh, [.accept (.bool false) 0, .accept (.bool true) 0]⟩

/-- Three of fifty lines are told, and twenty more. -/
theorem feed_accounts_hungryOnce :
    3 ≤ (List.replicate 50 "let x").length ∧ ∃ report,
      ((feed (List.replicate 50 "let x") ["let x", "let x", "let x"] 3).run
        (Recorded.ofTransport hungryOnce)).1 = .ok report ∧
      report.rounds = 2 ∧ report.endLine = 23 ∧ report.linesSent = 23 := by
  have hend : 3 ≤ (List.replicate 50 "let x").length := by decide
  have hreport : ((feed (List.replicate 50 "let x") ["let x", "let x", "let x"] 3).run
      (Recorded.ofTransport hungryOnce)).1.toOption.map FeedReport.rounds = some 2 := by
    decide +kernel
  obtain ⟨init, last, result, r, hrun, -, -, -, -, hfails, hsucceeds⟩ :=
    feed_accounts (List.replicate 50 "let x") ["let x", "let x", "let x"] hend hungryOnce
  rw [hrun] at hreport ⊢
  cases hlast : last.satisfied with
  | error cause =>
    rw [hfails cause hlast] at hreport
    cases hreport
  | ok satisfied =>
    obtain ⟨report, rfl, hrounds, hendLine, hsent, -⟩ := hsucceeds satisfied hlast
    have htwo : report.rounds = 2 := Option.some.inj hreport
    have hone : init.length = 1 := by omega
    rw [hone, List.length_replicate] at hendLine
    rw [hendLine] at hsent
    exact ⟨hend, report, rfl, htwo, hendLine, hsent⟩

end EditorBridge.Feed
