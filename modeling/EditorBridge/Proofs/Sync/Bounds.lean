import EditorBridge.Proofs.Sync.Course
import EditorBridge.Proofs.Sync.Rounds

/-!
# The bounds of a sync

Where a seek lands is a number from another program, and a sync cuts the lines of a buffer there.
This module writes the sync once more with everything checked that can be out of range: a
subtraction, an index, a slice, and a line number that has to fit a word (`Checked.syncTo`). A
checked exchange stops at the first check that fails.

None of them does. A checked exchange is compared with the one that runs (`Checked.InRange`), stage
by stage: the place where a sync begins is past the first line or a line start, which is all that
`delta?` asks for, and the windows of a feed follow each other up to the last line. How much a sync
sends is read off its course (`Course.length_le`).
-/

namespace EditorBridge

open Text

namespace Sync

variable {σ : Type} [Transport σ]

/-- A place where a sync lands is past the first line. -/
theorem lt_line_of_land {b : Buffer} {t t' : Tracked σ} {landed : Position}
    (h : (land b).run t = (.ok (some landed), t')) : 1 < landed.line := by
  rw [run_land] at h
  cases hm : t.tracker.usableMark? b.id (Transport.generation t.server) with
  | none =>
    rw [hm] at h
    cases congrArg Prod.fst h
  | some m =>
    rw [hm] at h
    have hresult := congrArg Prod.fst h
    simp only at hresult
    cases hp : (Transport.entry t.server (Command.seekBefore (m.resumePoint b))).position with
    | error c =>
      rw [hp] at hresult
      cases hresult
    | ok p =>
      rw [hp] at hresult
      obtain ⟨⟨-, hline⟩, heq⟩ := Option.ite_none_right_eq_some.mp (Except.ok.inj hresult)
      rwa [← Option.some.inj heq]

theorem Telling.endLine_le {lines : List String} {start : Position} {endLine : Nat}
    {es : List Entry} {report : FeedReport} (h : Telling lines start endLine es (.ok (some report)))
    (hend : endLine ≤ lines.length) : report.endLine ≤ lines.length := by
  generalize hr : (Except.ok (some report) : Except BridgeError _) = r at h
  cases h with
  | nothing => cases hr
  | @feed init last _ hfeed =>
    cases hs : last.satisfied with
    | error c =>
      rw [hs] at hr
      cases hr
    | ok satisfied =>
      rw [hs] at hr
      rw [Option.some.inj (Except.ok.inj hr)]
      exact Feed.add_more_le hend init

theorem endLine_le_of_tell {b : Buffer} {start : Position} {endLine : Nat}
    (hend : endLine ≤ b.lineCount) {t t' : Tracked σ} {report : FeedReport}
    (h : (tell b start endLine).run t = (.ok (some report), t')) :
    report.endLine ≤ b.lineCount := by
  obtain ⟨es, s, r, -, htelling, hrun⟩ := telling_tell b start hend t
  rw [h] at hrun
  have hr : Except.ok (some report) = r := congrArg Prod.fst hrun
  rw [← hr] at htelling
  exact htelling.endLine_le hend

/-! ## How much a sync sends -/

theorem Opening.length_le {b : Buffer} {t t' : Tracker} {g : Nat} {es : List Entry}
    {r : Except BridgeError (SyncMode × Position)} (h : Opening b t g es t' r) :
    es.length ≤ 2 := by
  cases h with
  | lost => simp
  | landed => simp
  | reset hunplaced => cases hunplaced <;> simp

/-- There is one tell for the delta, and at most one for every window after it. -/
theorem Telling.length_le {lines : List String} {start : Position} {endLine : Nat}
    {es : List Entry} {r : Except BridgeError (Option FeedReport)}
    (h : Telling lines start endLine es r) : es.length ≤ (lines.length + 19) / 20 + 1 := by
  cases h with
  | nothing => simp
  | @feed init last _ hfeed =>
    have hinit := hfeed.length_le
    rw [Feed.length_windows, List.length_drop, Feed.window] at hinit
    rw [List.length_append, List.length_singleton]
    omega

theorem Course.length_le {b : Buffer} {target : Position} {t t' : Tracker} {g : Nat}
    {es : List Entry} {r : Except BridgeError SyncReport} (h : Course b target t g es t' r) :
    es.length ≤ (b.lineCount + 19) / 20 + 4 := by
  cases h with
  | unopened hopen =>
    have := hopen.length_le
    omega
  | cut hopen htelling =>
    have hbegin := hopen.length_le
    have htells : _ ≤ (b.lineCount + 19) / 20 + 1 := htelling.length_le
    rw [List.length_append]
    omega
  | unsought hopen htelling =>
    have hbegin := hopen.length_le
    have htells : _ ≤ (b.lineCount + 19) / 20 + 1 := htelling.length_le
    simp only [List.length_append, List.length_singleton]
    omega
  | done hopen htelling =>
    have hbegin := hopen.length_le
    have htells : _ ≤ (b.lineCount + 19) / 20 + 1 := htelling.length_le
    simp only [List.length_append, List.length_singleton]
    omega

end Sync

/-- An exchange that also stops, without a result, where a number is out of range. -/
abbrev Checked (σ α : Type) := OptionT (Exchange σ) α

namespace Checked

variable {σ τ α β γ δ : Type}

def run (x : Checked σ α) (s : σ) : Except BridgeError (Option α) × σ :=
  Exchange.run (OptionT.run x) s

def ofExchange (x : Exchange σ α) : Checked σ α := OptionT.lift x

/-- Stops if the number is out of range that the option was made of. -/
def ofOption (o : Option α) : Checked σ α := OptionT.mk (pure o)

/-! ## What is checked -/

def minus? (m n : Nat) : Option Nat := if n ≤ m then some (m - n) else none

/-- The items from index `i` up to, but not including, index `j`. -/
def slice? (items : List α) (i j : Nat) : Option (List α) :=
  if i ≤ j ∧ j ≤ items.length then some ((items.take j).drop i) else none

def word32? (n : Nat) : Option Nat := if n ≤ maxWord32 then some n else none

theorem minus?_of_le {m n : Nat} (h : n ≤ m) : minus? m n = some (m - n) := if_pos h

theorem slice?_of_le {items : List α} {i j : Nat} (hij : i ≤ j) (hj : j ≤ items.length) :
    slice? items i j = some ((items.take j).drop i) := if_pos ⟨hij, hj⟩

theorem word32?_of_le {n : Nat} (h : n ≤ maxWord32) : word32? n = some n := if_pos h

/-! ## The sync, checked -/

/-- The lines from `landed` to the end of line `endLine`. Room is made for all of them first. -/
def delta? (lines : List String) (landed : Position) (endLine : Nat) : Option (List String) := do
  let index ← minus? landed.line 1
  if endLine ≤ index then some []
  else
    let line ← lines[index]?
    let _ ← minus? endLine index
    let rest ← slice? lines (index + 1) endLine
    some (dropChars landed.col line :: rest)

/-- The start of the line after the last one told. Both line numbers have to fit a word. -/
def confirmed? (start : Position) : Option FeedReport → Option Position
  | some report => do
    let line ← word32? report.endLine
    let next ← word32? (line + 1)
    some (Position.lineStart next)
  | none => some start

def onServer (x : Checked σ α) : Checked (Tracked σ) α := OptionT.mk (Sync.onServer (OptionT.run x))

variable [Transport σ]

/-- Tells a chunk that ends at line `endLine`, and slices one window after the other from the lines
until the server is satisfied. -/
def feedFrom (lines : List String) (kind : TellKind) (chunk : List String)
    (endLine rounds sent : Nat) : Checked σ FeedReport := do
  let satisfied ← ofExchange (Feed.tell kind chunk)
  let report : FeedReport := ⟨endLine, rounds + 1, sent + chunk.length, satisfied⟩
  if satisfied then pure report
  else if lines.length ≤ endLine then pure report
  else
    let next := min (endLine + Feed.window) lines.length
    let following ← ofOption (slice? lines endLine next)
    feedFrom lines .ending following next (rounds + 1) (sent + chunk.length)
termination_by lines.length - endLine
decreasing_by simp only [Feed.window]; omega

def feed (lines : List String) (chunk : List String) (endLine : Nat) : Checked σ FeedReport :=
  feedFrom lines .struct chunk (min endLine lines.length) 0 0

/-- Where the telling begins, and what is to be told up to line `endLine`. -/
def begin (buffer : Buffer) (endLine : Nat) :
    Checked (Tracked σ) (SyncMode × List String × Position) := do
  match ← ofExchange (Sync.land buffer) with
  | some landed =>
    let chunk ← ofOption (delta? buffer.lines landed endLine)
    pure (.incremental, chunk, landed)
  | none =>
    let _ ← ofExchange (Sync.reset (some buffer.basename))
    let chunk ← ofOption (slice? buffer.lines 0 endLine)
    pure (.full, chunk, Position.lineStart 1)

def tell (buffer : Buffer) (chunk : List String) (endLine : Nat) :
    Checked (Tracked σ) (Option FeedReport) :=
  match chunk with
  | [] => pure none
  | chunk => onServer do
    let report ← feed buffer.lines chunk endLine
    pure (some report)

def syncTo (buffer : Buffer) (target : Position) : Checked (Tracked σ) SyncReport := do
  let endLine := min target.line buffer.lineCount
  let switched ← ofExchange (Exchange.look fun t => t.tracker.isSwitch buffer.id)
  let (mode, chunk, start) ← begin buffer endLine
  let feed ← tell buffer chunk endLine
  let confirmed ← ofOption (confirmed? start feed)
  let generation ← ofExchange (Exchange.look fun t => Transport.generation t.server)
  ofExchange (Sync.track fun t =>
    { t with mark := some ⟨buffer.checkpoint, confirmed, generation⟩ })
  let position ← ofExchange (Sync.finish buffer target)
  pure ⟨mode, feed, switched, position⟩

/-! ## Staying in range -/

section

omit [Transport σ]

theorem run_bind (x : Checked σ α) (k : α → Checked σ β) (s : σ) :
    (x >>= k).run s =
      match x.run s with
      | (.ok (some a), s') => (k a).run s'
      | (.ok none, s') => (.ok none, s')
      | (.error c, s') => (.error c, s') := by
  have hbind : OptionT.run (x >>= k) =
      OptionT.run x >>= fun o => o.elim (pure none) fun a => OptionT.run (k a) := by
    rw [OptionT.run_bind]
    rfl
  unfold run
  rw [hbind, Exchange.run_bind]
  rcases Exchange.run (OptionT.run x) s with ⟨c | (_ | a), s'⟩ <;> rfl

theorem run_ofExchange (x : Exchange σ α) (s : σ) :
    (ofExchange x).run s = ((x.run s).1.map some, (x.run s).2) := by
  have hlift : OptionT.run (ofExchange x) = x >>= fun a => pure (some a) := rfl
  rw [run, hlift, Exchange.run_bind]
  rcases x.run s with ⟨c | a, s'⟩ <;> rfl

/-- From `s` no check fails, and the checked exchange does what the other one does. What it answers
is read off the other answer by `f`. -/
def InRange (f : α → β) (x : Checked σ β) (y : Exchange σ α) (s : σ) : Prop :=
  x.run s = ((y.run s).1.map fun a => some (f a), (y.run s).2)

theorem inRange_pure (f : α → β) (a : α) (s : σ) : InRange f (pure (f a)) (pure a) s := rfl

theorem inRange_ofExchange (x : Exchange σ α) (s : σ) : InRange id (ofExchange x) x s :=
  run_ofExchange x s

/-- What comes next has to stay in range only for the answer and the state that there are. -/
theorem InRange.bind {f : α → β} {g : γ → δ} {x : Checked σ β} {y : Exchange σ α}
    {k : β → Checked σ δ} {l : α → Exchange σ γ} {s : σ} (h : InRange f x y s)
    (hk : ∀ a s', y.run s = (.ok a, s') → InRange g (k (f a)) (l a) s') :
    InRange g (x >>= k) (y >>= l) s := by
  unfold InRange at h ⊢
  rw [run_bind, Exchange.run_bind, h]
  rcases hy : y.run s with ⟨c | a, s'⟩
  · rfl
  · exact hk a s' hy

/-- A check that succeeds leaves the rest as it is. -/
theorem InRange.of_option {g : γ → δ} {o : Option β} {b : β} {k : β → Checked σ δ}
    {y : Exchange σ γ} {s : σ} (ho : o = some b) (h : InRange g (k b) y s) :
    InRange g (ofOption o >>= k) y s := by
  unfold InRange at h ⊢
  rw [run_bind, ho]
  exact h

theorem InRange.onServer {f : α → β} {x : Checked σ β} {y : Exchange σ α} {t : Tracked σ}
    (h : InRange f x y t.server) : InRange f (onServer x) (Sync.onServer y) t := by
  have hrun : (Checked.onServer x).run t =
      ((x.run t.server).1, { t with server := (x.run t.server).2 }) := rfl
  rw [InRange, hrun, h]
  rfl

end

theorem delta?_eq {lines : List String} {landed : Position} {endLine : Nat}
    (hlanded : 1 ≤ landed.line) (hend : endLine ≤ lines.length) :
    delta? lines landed endLine = some (Sync.delta lines landed endLine) := by
  obtain ⟨line, col⟩ := landed
  obtain ⟨index, rfl⟩ : ∃ index, line = index + 1 := ⟨line - 1, by simp only at hlanded; omega⟩
  unfold delta?
  rw [minus?_of_le hlanded]
  simp only [Option.bind_eq_bind, Option.bind_some, Nat.add_sub_cancel]
  by_cases hindex : endLine ≤ index
  · rw [if_pos hindex, Sync.delta_eq_nil_iff.mpr (by simp only; omega)]
  · have hlt : index < lines.length := by omega
    have hroom : minus? endLine index = some (endLine - index) := minus?_of_le (by omega)
    have hrest : slice? lines (index + 1) endLine = some ((lines.take endLine).drop (index + 1)) :=
      slice?_of_le (by omega) hend
    rw [if_neg hindex, List.getElem?_eq_getElem hlt, hroom, hrest,
      Sync.delta_eq_cons hlt (by omega)]
    rfl

/-- The first window is a slice, and the others are those of the lines after it. -/
theorem windows_drop {lines : List String} {endLine : Nat} (hend : endLine < lines.length) :
    Feed.windows (lines.drop endLine) =
      (lines.take (min (endLine + Feed.window) lines.length)).drop endLine ::
        Feed.windows (lines.drop (min (endLine + Feed.window) lines.length)) := by
  have htake : (lines.take (min (endLine + Feed.window) lines.length)).drop endLine =
      (lines.drop endLine).take Feed.window := by
    rw [List.drop_take, List.take_eq_take_iff, List.length_drop]
    omega
  have hdrop : lines.drop (min (endLine + Feed.window) lines.length) =
      (lines.drop endLine).drop Feed.window := by
    rw [List.drop_drop, List.drop_eq_drop_iff]
    omega
  rw [htake, hdrop, List.drop_eq_getElem_cons hend, Feed.windows]

/-- **A feed stays in range,** whatever its tells are answered. -/
theorem inRange_feedFrom {lines : List String} (kind : TellKind) (chunk : List String)
    {endLine : Nat} (hend : endLine ≤ lines.length) (rounds sent : Nat) (s : σ) :
    InRange id (feedFrom lines kind chunk endLine rounds sent)
      (Feed.feedFrom kind chunk endLine rounds sent (Feed.windows (lines.drop endLine))) s := by
  -- on the number of lines left, which a window makes smaller
  generalize hleft : lines.length - endLine = left
  induction left using Nat.strongRecOn generalizing kind chunk endLine rounds sent s with
  | ind left ih =>
    rw [feedFrom, Feed.feedFrom]
    refine InRange.bind (inRange_ofExchange _ s) fun satisfied s' _ => ?_
    cases satisfied with
    | true => exact inRange_pure id _ s'
    | false =>
      by_cases hlast : lines.length ≤ endLine
      · have hnone : Feed.windows (lines.drop endLine) = [] := by
          rw [List.drop_eq_nil_of_le hlast, Feed.windows]
        rw [hnone]
        simp only [id_eq, Bool.false_eq_true, if_false, if_pos hlast]
        exact inRange_pure id _ s'
      · have hlt : endLine < lines.length := by omega
        have hnext : endLine + ((lines.take (min (endLine + Feed.window) lines.length)).drop
            endLine).length = min (endLine + Feed.window) lines.length := by
          rw [List.length_drop, List.length_take]
          omega
        have hslice : slice? lines endLine (min (endLine + Feed.window) lines.length) = some
            ((lines.take (min (endLine + Feed.window) lines.length)).drop endLine) :=
          slice?_of_le (by omega) (Nat.min_le_right _ _)
        rw [windows_drop hlt]
        simp only [id_eq, Bool.false_eq_true, if_false, if_neg hlast, hnext]
        refine InRange.of_option hslice (ih _ ?_ _ _ (Nat.min_le_right _ _) _ _ s' rfl)
        simp only [Feed.window]
        omega

theorem inRange_tell (b : Buffer) (start : Position) {endLine : Nat} (hend : endLine ≤ b.lineCount)
    (t : Tracked σ) :
    InRange id (tell b (Sync.delta b.lines start endLine) endLine) (Sync.tell b start endLine)
      t := by
  have hmin : min endLine b.lines.length = endLine := Nat.min_eq_left hend
  unfold tell Sync.tell
  cases Sync.delta b.lines start endLine with
  | nil => exact inRange_pure id none t
  | cons line rest =>
    simp only [feed, Feed.feed, hmin]
    refine InRange.onServer (InRange.bind (inRange_feedFrom _ _ hend 0 0 t.server) ?_)
    exact fun report s' _ => inRange_pure id (some report) s'

/-- A sync only begins past the first line, or at a line start. -/
theorem inRange_begin (b : Buffer) {endLine : Nat} (hend : endLine ≤ b.lineCount) (t : Tracked σ) :
    InRange (fun r => (r.1, Sync.delta b.lines r.2 endLine, r.2)) (begin b endLine)
      (Sync.begin b) t := by
  unfold begin Sync.begin
  refine InRange.bind (inRange_ofExchange _ t) fun landed? t' hland => ?_
  cases landed? with
  | some landed =>
    have hline : 1 < landed.line := Sync.lt_line_of_land hland
    exact InRange.of_option (delta?_eq (by omega) hend) (inRange_pure _ (_, landed) t')
  | none =>
    refine InRange.bind (inRange_ofExchange _ t') fun _ t'' _ => ?_
    have hwhole : slice? b.lines 0 endLine =
        some (Sync.delta b.lines (Position.lineStart 1) endLine) := by
      rw [slice?_of_le (Nat.zero_le _) hend, Sync.delta_lineStart]
    exact InRange.of_option hwhole (inRange_pure _ (_, Position.lineStart 1) t'')

theorem confirmed?_eq {b : Buffer} {start : Position} {feed : Option FeedReport}
    (hfeed : ∀ report, feed = some report → report.endLine ≤ b.lineCount)
    (hlines : b.lineCount < maxWord32) :
    confirmed? start feed = some (Sync.confirmed start feed) := by
  cases feed with
  | none => rfl
  | some report =>
    have hle := hfeed report rfl
    have hline : word32? report.endLine = some report.endLine := word32?_of_le (by omega)
    have hnext : word32? (report.endLine + 1) = some (report.endLine + 1) :=
      word32?_of_le (by omega)
    simp only [confirmed?, Option.bind_eq_bind, hline, Option.bind_some, hnext]
    rfl

/-- **A sync stays in range,** as long as the numbers of the lines fit a word. -/
theorem inRange_syncTo (b : Buffer) (target : Position) (hlines : b.lineCount < maxWord32)
    (t : Tracked σ) : InRange id (syncTo b target) (Sync.syncTo b target) t := by
  have hend : min target.line b.lineCount ≤ b.lineCount := Nat.min_le_right _ _
  unfold syncTo Sync.syncTo
  refine InRange.bind (inRange_ofExchange _ t) fun switched t₁ _ => ?_
  refine InRange.bind (inRange_begin b hend t₁) fun (mode, start) t₂ _ => ?_
  refine InRange.bind (inRange_tell b start hend t₂) fun feed t₃ htell => ?_
  have hfeed : ∀ report, feed = some report → report.endLine ≤ b.lineCount := fun report h =>
    Sync.endLine_le_of_tell hend (h ▸ htell)
  refine InRange.of_option (confirmed?_eq hfeed hlines) ?_
  refine InRange.bind (inRange_ofExchange _ t₃) fun generation t₄ _ => ?_
  refine InRange.bind (inRange_ofExchange _ t₄) fun _ t₅ _ => ?_
  refine InRange.bind (inRange_ofExchange _ t₅) fun position t₆ _ => ?_
  exact inRange_pure id _ t₆

end Checked

namespace Sync

variable {σ : Type} [Transport σ]

/-- **A sync is safe against any server.** Whatever is known of the server's copy, wherever the
target is and whatever the server answers, a sync sends at most one command for every twenty lines
begun and four more. If the numbers of the buffer's lines are below the greatest word, then nothing
in it is out of range: the checked sync gives the same result and leaves the same state. -/
theorem syncTo_bounded (b : Buffer) (target : Position) (tracker : Tracker) (s : σ) :
    ∃ r t, (syncTo b target).run ⟨Recorded.ofTransport s, tracker⟩ = (r, t) ∧
      t.server.history.length ≤ (b.lineCount + 19) / 20 + 4 ∧
      (b.lineCount < maxWord32 →
        (Checked.syncTo b target).run ⟨Recorded.ofTransport s, tracker⟩ = (r.map some, t)) := by
  obtain ⟨es, t, r, htalk, hcourse, hrun⟩ := run_syncTo b target ⟨Recorded.ofTransport s, tracker⟩
  refine ⟨r, t, hrun, ?_, fun hlines => ?_⟩
  · rw [htalk.history_eq]
    exact hcourse.length_le
  · have hchecked := Checked.inRange_syncTo b target hlines ⟨Recorded.ofTransport s, tracker⟩
    rw [Checked.InRange, hrun] at hchecked
    exact hchecked

end Sync

end EditorBridge
