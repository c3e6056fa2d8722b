import EditorBridge.Proofs.Position.Order
import EditorBridge.Proofs.Session.Typing

/-!
# Selecting phrases

A selection of two positions is widened to whole phrases. The server is asked for the phrase at the
last position, and then for the one at the first, unless the two positions are one or there is no
phrase at the last. What is sent and answered after the sync is `PhraseTalk`, whatever the server
replies.

A server marks phrases as `b` says if it answers the commands of a sync, and a question for a phrase
with `b p`, where `p` is the position that was sought last (`Marks`). The sync seeks positions of
its own, so that it matters that a position is sought again before each question. The main statement
is `selectPhrase_covers`: what is selected is the smallest span that covers the phrases that were
found. Which of the two positions comes first in the text is of no importance.
-/

namespace EditorBridge

open Transport (next entry)

/-! ## Spans -/

namespace Span

/-- A span reaches at least as far as another one in both directions. -/
def Covers (s t : Span) : Prop := s.start ≤ t.start ∧ t.stop ≤ s.stop

def Contains (s : Span) (p : Position) : Prop := s.start ≤ p ∧ p ≤ s.stop

instance (s : Span) (p : Position) : Decidable (s.Contains p) :=
  inferInstanceAs (Decidable (s.start ≤ p ∧ p ≤ s.stop))

/-- The smallest span that covers some others. -/
structure IsHull (s : Span) (parts : List Span) : Prop where
  covers : ∀ part ∈ parts, s.Covers part
  least : ∀ t : Span, (∀ part ∈ parts, t.Covers part) → t.Covers s

theorem Covers.refl (s : Span) : s.Covers s := ⟨le_refl s.start, le_refl s.stop⟩

theorem Covers.contains {s t : Span} {p : Position} (h : s.Covers t) (hp : t.Contains p) :
    s.Contains p :=
  ⟨h.1.trans hp.1, hp.2.trans h.2⟩

theorem isHull_singleton (s : Span) : s.IsHull [s] where
  covers := List.forall_mem_singleton.mpr (.refl s)
  least _ h := List.forall_mem_singleton.mp h

/-- **The union of two spans is their hull,** also when they are apart or end before they begin. -/
theorem isHull_union (s t : Span) : (s.union t).IsHull [s, t] where
  covers := by
    refine List.forall_mem_cons.mpr ⟨?_, List.forall_mem_singleton.mpr ?_⟩
    · exact ⟨min_le_left s.start t.start, le_max_left s.stop t.stop⟩
    · exact ⟨min_le_right s.start t.start, le_max_right s.stop t.stop⟩
  least u h := by
    obtain ⟨hs, ht⟩ := List.forall_mem_cons.mp h
    have ht := List.forall_mem_singleton.mp ht
    exact ⟨le_min hs.1 ht.1, max_le hs.2 ht.2⟩

end Span

/-! ## Servers that mark phrases -/

namespace Command

/-- The position that a command seeks exactly. -/
def sought? (c : Command) : Option Position :=
  match c.name, c.args with
  | "seek", [.string "exact", p] => Request.position? p
  | _, _ => none

@[simp] theorem sought?_seekExact (p : Position) : (seekExact p).sought? = some p := by
  rw [seekExact, positionArg_eq]
  rfl

@[simp] theorem sought?_boundary : boundary.sought? = none := rfl

theorem label_boundary : boundary.label = "boundary" := rfl

theorem label_seekExact_ne (p : Position) : (seekExact p).label ≠ "boundary" :=
  show "seek exact" ≠ "boundary" by decide

end Command

/-- What the answer to a question for a phrase says. -/
def Entry.bounds (e : Entry) : Except BridgeError (Option Span) :=
  e.reading (Json.nullable? Span.ofPair?)

/-- A question for a phrase is answered by what `b` says of the position that was sought last, if
one was sought, and every other command by a `return` that a sync can use. -/
def Marks (b : Position → Option Span) : Option Position → List Entry → Prop
  | _, [] => True
  | p?, e :: es =>
    (if e.command.label = "boundary" then ∀ p ∈ p?, e.bounds = .ok (b p) else e.IsUsable) ∧
      Marks b (e.command.sought?.or p?) es

instance decidableMarks (b : Position → Option Span) :
    (p? : Option Position) → (es : List Entry) → Decidable (Marks b p? es)
  | _, [] => .isTrue trivial
  | p?, e :: es =>
    have := decidableMarks b (e.command.sought?.or p?) es
    have (p : Position) : Decidable (e.bounds = .ok (b p)) :=
      decidable_of_iff _ toOption_eq_some_iff
    have : Decidable e.IsUsable := decidable_of_iff _ toOption_eq_some_iff
    inferInstanceAs (Decidable ((if e.command.label = "boundary" then
      ∀ p ∈ p?, e.bounds = .ok (b p) else e.IsUsable) ∧ Marks b (e.command.sought?.or p?) es))

section

variable {b : Position → Option Span} {p? : Option Position} {es fs : List Entry}

theorem Marks.of_append (h : Marks b p? (es ++ fs)) :
    (∀ e ∈ es, e.command.label ≠ "boundary" → e.IsUsable) ∧ ∃ q?, Marks b q? fs := by
  induction es generalizing p? with
  | nil => exact ⟨List.forall_mem_nil _, p?, h⟩
  | cons e es ih =>
    obtain ⟨he, hes⟩ := h
    obtain ⟨husable, hfs⟩ := ih hes
    refine ⟨List.forall_mem_cons.mpr ⟨?_, husable⟩, hfs⟩
    intro hlabel
    rwa [if_neg hlabel] at he

/-- A position that is sought is the one that the next question is about. -/
theorem Marks.of_seekExact {e f : Entry} {p : Position} (h : Marks b p? (e :: f :: es))
    (he : e.command = Command.seekExact p) (hf : f.command = Command.boundary) :
    f.bounds = .ok (b p) ∧ Marks b (some p) es := by
  obtain ⟨-, hask, hes⟩ := h
  rw [hf, if_pos Command.label_boundary, he, Command.sought?_seekExact] at hask
  rw [he, hf, Command.sought?_seekExact, Command.sought?_boundary] at hes
  exact ⟨hask p rfl, hes⟩

end

/-- The span that is selected: that of the last position, which that of the first may widen. -/
def phraseOf (b : Position → Option Span) (first last : Position) : Option Span :=
  (b last).map fun span => if first = last then span else (b first).elim span span.union

/-- The phrases that a selection has to cover if there is one at its last position. -/
def phrasesAt (b : Position → Option Span) (first last : Position) : List Span :=
  (b last).toList ++ if first = last then [] else (b first).toList

theorem isHull_phraseOf {b : Position → Option Span} {first last : Position} {span : Span}
    (h : phraseOf b first last = some span) : span.IsHull (phrasesAt b first last) := by
  obtain ⟨atLast, hlast, rfl⟩ := Option.map_eq_some_iff.mp h
  rw [phrasesAt, hlast]
  by_cases heq : first = last
  · rw [if_pos heq, if_pos heq]
    exact Span.isHull_singleton atLast
  · rw [if_neg heq, if_neg heq]
    cases b first with
    | none => exact Span.isHull_singleton atLast
    | some atFirst => exact Span.isHull_union atLast atFirst

theorem contains_phraseOf {b : Position → Option Span} {first last : Position} {span : Span}
    (hcontains : ∀ p span, b p = some span → span.Contains p)
    (h : phraseOf b first last = some span) :
    span.Contains last ∧ (b first ≠ none → span.Contains first) := by
  have hull := isHull_phraseOf h
  obtain ⟨atLast, hlast, -⟩ := Option.map_eq_some_iff.mp h
  have hmem : atLast ∈ phrasesAt b first last :=
    List.mem_append_left _ (Option.mem_toList.mpr hlast)
  have hcovered : span.Contains last :=
    (hull.covers atLast hmem).contains (hcontains last atLast hlast)
  refine ⟨hcovered, ?_⟩
  intro hne
  by_cases heq : first = last
  · rwa [heq]
  · obtain ⟨atFirst, hfirst⟩ := Option.ne_none_iff_exists'.mp hne
    have hmem' : atFirst ∈ phrasesAt b first last := by
      rw [phrasesAt, if_neg heq]
      exact List.mem_append_right _ (Option.mem_toList.mpr hfirst)
    exact (hull.covers atFirst hmem').contains (hcontains first atFirst hfirst)

variable {σ : Type} [Transport σ]

namespace Session

/-! ## What is asked -/

/-- Asks for the phrase at a position. -/
def askAt (p : Position) : Exchange (Session σ) (Option Span) := do
  let _ ← seekExact p
  boundary

/-- The entries of a question for the phrase at a position, and its answer. -/
inductive Asks (p : Position) : List Entry → Except BridgeError (Option Span) → Prop
  /-- The position was not found. -/
  | unsought {e : Entry} {c : BridgeError} :
      e.command = Command.seekExact p → e.position = .error c → Asks p [e] (.error c)
  | asked {e f : Entry} {q : Position} :
      e.command = Command.seekExact p → e.position = .ok q → f.command = Command.boundary →
      Asks p [e, f] f.bounds

theorem run_onServer_request (command : Command) {α : Type} (decode : Json → Option α)
    (s : Session σ) :
    (onServer (request command decode)).run s =
      ((entry s.server command).reading decode, { s with server := next s.server command }) := by
  rw [onServer, onTracked, Exchange.run_zoom, Sync.onServer, Exchange.run_zoom, run_request]

theorem asks_askAt (p : Position) (s : Session σ) :
    ∃ es, Talk s.server es ((askAt p).run s).2.server ∧ Asks p es ((askAt p).run s).1 := by
  have hseek := Talk.single s.server (Command.seekExact p)
  rw [askAt, Exchange.run_bind, seekExact, run_onServer_request]
  rcases he : (entry s.server (Command.seekExact p)).reading Position.ofJson? with c | q
  · exact ⟨_, hseek, .unsought rfl he⟩
  · simp only
    rw [boundary, run_onServer_request]
    exact ⟨_, hseek.append (Talk.single _ Command.boundary), .asked rfl he rfl⟩

/-- The entries of a selection after the sync, and its result. -/
inductive PhraseTalk (first last : Position) :
    List Entry → Except BridgeError (Option Span) → Prop
  /-- The first position is not asked about. -/
  | once {es : List Entry} {r : Except BridgeError (Option Span)} :
      Asks last es r → (∀ span, r = .ok (some span) → first = last) → PhraseTalk first last es r
  /-- Both positions are asked about. -/
  | twice {es fs : List Entry} {span : Span} {r : Except BridgeError (Option Span)} :
      Asks last es (.ok (some span)) → first ≠ last → Asks first fs r →
      PhraseTalk first last (es ++ fs) (r.map fun atFirst => some (atFirst.elim span span.union))

theorem run_selectPhrase (buffer : Buffer) (first last : Position) (s : Session σ) :
    (selectPhrase buffer first last).run s =
      match (syncTo buffer last).run s with
      | (.error c, s₁) => (.error c, s₁)
      | (.ok _, s₁) =>
        match (askAt last).run s₁ with
        | (.error c, s₂) => (.error c, s₂)
        | (.ok none, s₂) => (.ok none, s₂)
        | (.ok (some atLast), s₂) =>
          if first = last then (.ok (some atLast), s₂)
          else (((askAt first).run s₂).1.map fun atFirst =>
            some (atFirst.elim atLast atLast.union), ((askAt first).run s₂).2) := by
  rw [selectPhrase, Exchange.run_bind]
  rcases (syncTo buffer last).run s with ⟨c | report, s₁⟩
  · rfl
  simp only [askAt, Exchange.run_bind]
  rcases (seekExact last).run s₁ with ⟨c | p, s₂⟩
  · rfl
  simp only
  rcases boundary.run s₂ with ⟨c | (_ | atLast), s₃⟩
  · rfl
  · rfl
  by_cases heq : first = last
  · simp only [if_pos heq]
    rfl
  simp only [if_neg heq, Exchange.run_bind]
  rcases (seekExact first).run s₃ with ⟨c | p, s₄⟩
  · rfl
  simp only
  rcases boundary.run s₄ with ⟨c | (_ | atFirst), s₅⟩ <;> rfl

/-- **What a selection asks after the sync, whatever the server replies.** -/
theorem phraseTalk_selectPhrase {buffer : Buffer} {last : Position} {s s₁ : Session σ}
    {report : SyncReport} (hsync : (syncTo buffer last).run s = (.ok report, s₁))
    (first : Position) :
    ∃ es, Talk s₁.server es ((selectPhrase buffer first last).run s).2.server ∧
      PhraseTalk first last es ((selectPhrase buffer first last).run s).1 := by
  obtain ⟨es, htalk, hasks⟩ := asks_askAt last s₁
  rw [run_selectPhrase, hsync]
  rcases hrun : (askAt last).run s₁ with ⟨c | (_ | atLast), s₂⟩ <;>
    rw [hrun] at htalk hasks <;> simp only [hrun]
  · exact ⟨es, htalk, .once hasks fun span h => nomatch h⟩
  · exact ⟨es, htalk, .once hasks fun span h => nomatch h⟩
  by_cases heq : first = last
  · rw [if_pos heq]
    exact ⟨es, htalk, .once hasks fun span _ => heq⟩
  · obtain ⟨fs, htalk', hasks'⟩ := asks_askAt first s₂
    rw [if_neg heq]
    exact ⟨es ++ fs, htalk.append htalk', .twice hasks heq hasks'⟩

/-! ## What is selected -/

/-- How often a phrase is asked for. -/
def questions (es : List Entry) : Nat := es.countP fun e => e.command.label = "boundary"

@[simp] theorem questions_append (es fs : List Entry) :
    questions (es ++ fs) = questions es + questions fs := List.countP_append

/-- A question for a phrase, asked of a server that marks phrases. -/
theorem Asks.of_marks {b : Position → Option Span} {p : Position} {p? : Option Position}
    {es fs : List Entry} {r : Except BridgeError (Option Span)} (h : Asks p es r)
    (hmarks : Marks b p? (es ++ fs)) :
    r = .ok (b p) ∧ questions es = 1 ∧ ∃ q?, Marks b q? fs := by
  cases h with
  | @unsought e c he hc =>
    have husable : e.verdict = .ok () :=
      hmarks.of_append.1 e List.mem_cons_self (he ▸ Command.label_seekExact_ne p)
    rw [Entry.verdict_seekExact he, hc] at husable
    cases husable
  | @asked e f q he hq hf =>
    obtain ⟨hbounds, hrest⟩ := Marks.of_seekExact hmarks he hf
    refine ⟨hbounds, ?_, _, hrest⟩
    simp [questions, he, hf, Command.label_boundary]

/-- A selection, asked of a server that marks phrases. -/
theorem PhraseTalk.of_marks {b : Position → Option Span} {first last : Position}
    {p? : Option Position} {es : List Entry} {r : Except BridgeError (Option Span)}
    (h : PhraseTalk first last es r) (hmarks : Marks b p? es) :
    r = .ok (phraseOf b first last) ∧
      questions es = if first = last ∨ b last = none then 1 else 2 := by
  cases h with
  | once hasks honce =>
    rw [← List.append_nil es] at hmarks
    obtain ⟨rfl, hes, -⟩ := hasks.of_marks hmarks
    cases hlast : b last with
    | none =>
      rw [phraseOf, hlast, if_pos (Or.inr rfl)]
      exact ⟨rfl, hes⟩
    | some span =>
      have heq := honce span (congrArg Except.ok hlast)
      rw [phraseOf, hlast, Option.map_some, if_pos heq, if_pos (Or.inl heq)]
      exact ⟨rfl, hes⟩
  | @twice es fs span r hasks hne hasks' =>
    obtain ⟨hlast, hes, q?, hmarks'⟩ := hasks.of_marks hmarks
    rw [← List.append_nil fs] at hmarks'
    obtain ⟨rfl, hfs, -⟩ := hasks'.of_marks hmarks'
    have hlast : b last = some span := (Except.ok.inj hlast).symm
    have hboth : ¬ (first = last ∨ b last = none) := by
      rw [hlast]
      rintro (h | h)
      · exact hne h
      · cases h
    rw [questions_append, hes, hfs, if_neg hboth, phraseOf, hlast, Option.map_some, if_neg hne]
    exact ⟨rfl, rfl⟩

/-- A sync asks for no phrase, and it succeeds if all of its commands are answered well. -/
theorem talk_syncTo (buffer : Buffer) (target : Position) (s : Session σ) :
    ∃ es, Talk s.server es ((syncTo buffer target).run s).2.server ∧
      (∀ e ∈ es, e.command.label ≠ "boundary") ∧
      ((∀ e ∈ es, e.IsUsable) → ∃ report, ((syncTo buffer target).run s).1 = .ok report) := by
  obtain ⟨es, t, r, htalk, hcourse, hrun⟩ := Sync.run_syncTo buffer target s.toTracked
  rw [run_syncTo, hrun]
  refine ⟨es, htalk, ?_, ?_⟩
  · intro e he hlabel
    have hmem := hcourse.label_mem e he
    rw [hlabel] at hmem
    exact absurd hmem (by decide)
  · exact hcourse.settles.exists_ok

/-- What a selection answers and how often it asks, if the server marks phrases. -/
theorem selectPhrase_of_marks {server : σ} {tracker : Tracker} {navigator : Navigator}
    {buffer : Buffer} {first last : Position} {r : Except BridgeError (Option Span)}
    {s : Session (Recorded σ)} {b : Position → Option Span}
    (hrun : (selectPhrase buffer first last).run
      ⟨⟨Recorded.ofTransport server, tracker⟩, navigator⟩ = (r, s))
    (hmarks : Marks b none s.server.history) :
    r = .ok (phraseOf b first last) ∧
      questions s.server.history = if first = last ∨ b last = none then 1 else 2 := by
  obtain ⟨es, htalk, hlabels, hok⟩ :=
    talk_syncTo buffer last ⟨⟨Recorded.ofTransport server, tracker⟩, navigator⟩
  rcases hsync : (syncTo buffer last).run
    ⟨⟨Recorded.ofTransport server, tracker⟩, navigator⟩ with ⟨c | report, s₁⟩ <;>
    rw [hsync] at htalk hok
  · -- a failed sync is where the run ends
    rw [run_selectPhrase, hsync] at hrun
    obtain rfl : s₁ = s := congrArg Prod.snd hrun
    rw [htalk.history_eq, ← List.append_nil es] at hmarks
    obtain ⟨report, hreport⟩ := hok fun e he => hmarks.of_append.1 e he (hlabels e he)
    cases hreport
  · obtain ⟨fs, htalk', hphrase⟩ := phraseTalk_selectPhrase hsync first
    rw [hrun] at htalk' hphrase
    rw [(htalk.append htalk').history_eq] at hmarks ⊢
    obtain ⟨-, q?, hfs⟩ := hmarks.of_append
    obtain ⟨hr, hasked⟩ := hphrase.of_marks hfs
    have hnone : questions es = 0 := by
      refine List.countP_eq_zero.mpr ?_
      intro e he
      simpa using hlabels e he
    rw [questions_append, hnone, Nat.zero_add]
    exact ⟨hr, hasked⟩

/-- **A selection covers the phrases at its two positions.** It answers nothing exactly if there is
no phrase at the last position, and otherwise the smallest span that covers that phrase and the one
at the first position, if there is one. The server is asked once or twice. If phrases contain their
positions, the selection contains the last position, and the first one if there is a phrase. -/
theorem selectPhrase_covers {server : σ} {tracker : Tracker} {navigator : Navigator}
    {buffer : Buffer} {first last : Position} {r : Except BridgeError (Option Span)}
    {s : Session (Recorded σ)} {b : Position → Option Span}
    (hrun : (selectPhrase buffer first last).run
      ⟨⟨Recorded.ofTransport server, tracker⟩, navigator⟩ = (r, s))
    (hmarks : Marks b none s.server.history) :
    ∃ phrase, r = .ok phrase ∧ (phrase = none ↔ b last = none) ∧
      (∀ span, phrase = some span → span.IsHull (phrasesAt b first last)) ∧
      (questions s.server.history = if first = last ∨ b last = none then 1 else 2) ∧
      ((∀ p span, b p = some span → span.Contains p) → ∀ span, phrase = some span →
        span.Contains last ∧ (b first ≠ none → span.Contains first)) := by
  obtain ⟨hr, hasked⟩ := selectPhrase_of_marks hrun hmarks
  refine ⟨phraseOf b first last, hr, Option.map_eq_none_iff, ?_, hasked, ?_⟩
  · intro span hspan
    exact isHull_phraseOf hspan
  · intro hcontains span hspan
    exact contains_phraseOf hcontains hspan

/-- One phrase before the middle of a line of two characters, and one after it. -/
def twoPhrases (p : Position) : Option Span :=
  if p = ⟨1, 0⟩ then some ⟨⟨1, 0⟩, ⟨1, 1⟩⟩
  else if p = ⟨1, 2⟩ then some ⟨⟨1, 1⟩, ⟨1, 2⟩⟩
  else none

/-- After a sync of one line, the server marks these phrases. -/
def marksTwo : TextServer :=
  ⟨1, .fresh, Sync.fullSync ++
    [.accept (Position.toJson ⟨1, 0⟩) 0,
      .accept (.array [Position.toJson ⟨1, 0⟩, Position.toJson ⟨1, 1⟩]) 0,
      .accept (Position.toJson ⟨1, 2⟩) 2,
      .accept (.array [Position.toJson ⟨1, 1⟩, Position.toJson ⟨1, 2⟩]) 2]⟩

/-- The positions may come in either order. -/
theorem selectPhrase_covers_marksTwo :
    ∃ s, (selectPhrase Sync.oneLine ⟨1, 2⟩ ⟨1, 0⟩).run (ofServer (Recorded.ofTransport marksTwo)) =
        (.ok (some ⟨⟨1, 0⟩, ⟨1, 2⟩⟩), s) ∧
      Marks twoPhrases none s.server.history ∧
      Span.IsHull ⟨⟨1, 0⟩, ⟨1, 2⟩⟩ [⟨⟨1, 0⟩, ⟨1, 1⟩⟩, ⟨⟨1, 1⟩, ⟨1, 2⟩⟩] ∧
      questions s.server.history = 2 ∧
      Span.Contains ⟨⟨1, 0⟩, ⟨1, 2⟩⟩ ⟨1, 0⟩ ∧ Span.Contains ⟨⟨1, 0⟩, ⟨1, 2⟩⟩ ⟨1, 2⟩ := by
  have hresult : ((selectPhrase Sync.oneLine ⟨1, 2⟩ ⟨1, 0⟩).run
      (ofServer (Recorded.ofTransport marksTwo))).1.toOption = some (some ⟨⟨1, 0⟩, ⟨1, 2⟩⟩) := by
    decide +kernel
  have hmarks : Marks twoPhrases none ((selectPhrase Sync.oneLine ⟨1, 2⟩ ⟨1, 0⟩).run
      (ofServer (Recorded.ofTransport marksTwo))).2.server.history := by
    decide +kernel
  have hcontains (p : Position) (span : Span) (h : twoPhrases p = some span) :
      span.Contains p := by
    unfold twoPhrases at h
    split_ifs at h with hp hp' <;> subst p <;> obtain rfl := Option.some.inj h <;> decide
  obtain ⟨phrase, hphrase, -, hull, hasked, hcovered⟩ :=
    selectPhrase_covers (Prod.eta _).symm hmarks
  obtain rfl := Except.ok.inj ((eq_ok_of_toOption hresult).symm.trans hphrase)
  obtain ⟨hlast, hfirst⟩ := hcovered hcontains _ rfl
  exact ⟨_, Prod.ext hphrase rfl, hmarks, hull _ rfl, hasked, hlast, hfirst (by decide)⟩

end Session

end EditorBridge
