import EditorBridge.Proofs.Sync.Course

/-!
# The transcript of a sync

What one sync sends to the server, whatever the server answers. `syncTo_transcript` is the main
statement: the commands are a seek, a reset, some tells and another seek, each sent exactly when it
is called for (`Transcript`), the first one that fails is the last one sent, and after a sync that
succeeded the texts told are the text of the buffer from the place where the telling began to the
end of the last line told (`Completed`).
-/

namespace EditorBridge

open Text

namespace Entry

/-- The server landed on the first line, or was replaced while it was asked. -/
def Strays (e : Entry) : Prop := ∃ p, e.position = .ok p ∧ (p.line ≤ 1 ∨ e.after ≠ e.before)

end Entry

namespace Sync

/-- The first commands of a sync with a server of generation `g`. -/
structure Opened (b : Buffer) (t : Tracker) (g : Nat) (seeks resets : List Entry) : Prop where
  /-- The resume point is sought exactly if there is a mark of this buffer and process. -/
  seek : seeks.map Entry.command =
    (t.usableMark? b.id g).toList.map fun m => Command.seekBefore (m.resumePoint b)
  /-- The server is reset exactly if it was not asked to seek, or strayed. -/
  reset : resets.map Entry.command = [Command.reset (some b.basename)] ∧
      (∀ e ∈ seeks, e.Strays) ∨
    resets = [] ∧ ∃ e ∈ seeks, ¬ e.Strays

/-- The commands of one sync with a server of generation `g`, and its result. -/
structure Transcript (b : Buffer) (target : Position) (t : Tracker) (g : Nat)
    (seeks resets tells ends : List Entry) (r : Except BridgeError SyncReport) : Prop
    extends Opened b t g seeks resets where
  /-- The first tell is a `struct`, and the others continue it. -/
  tell : tells = [] ∨ ∃ (chunk : List String) (chunks : List (List String)),
    tells.map Entry.command = Command.tell .struct chunk :: chunks.map (Command.tell .ending)
  finish : ends = [] ∨ ends.map Entry.command = [Command.seekExact target]
  settles : Settles (seeks ++ resets ++ tells ++ ends) r

/-- How a sync began, and where its telling begins. -/
structure Begins (mode : SyncMode) (start : Position) (seeks resets : List Entry) : Prop where
  full : resets ≠ [] → mode = .full ∧ start = ⟨1, 0⟩
  incremental : resets = [] → mode = .incremental ∧ ∃ e, seeks = [e] ∧ e.position = .ok start

/-- What a sync that succeeded has told from `start` on, what it reports, and what it knows. -/
structure Completed (b : Buffer) (target : Position) (t' : Tracker) (report : SyncReport)
    (start : Position) (seeks resets tells ends : List Entry) : Prop
    extends Begins report.mode start seeks resets where
  finish : ∃ e, ends = [e] ∧ e.command = Command.seekExact target ∧
    e.position = .ok report.position
  /-- There is no tell exactly if the telling would begin past the last line to tell. -/
  untold_iff : tells = [] ↔ min target.line b.lineCount < start.line
  /-- Without a tell the server is known to hold what it held where it landed. -/
  untold : tells = [] → report.feed = none ∧ t'.mark.map Mark.confirmed = some start
  /-- The texts told are the rest of a line and the lines after it to the last one told. -/
  told : tells ≠ [] → ∃ feed line, report.feed = some feed ∧
    b.lines[start.line - 1]? = some line ∧
    min target.line b.lineCount ≤ feed.endLine ∧ feed.endLine ≤ b.lineCount ∧
    told tells = line.toList.drop start.col ++
      '\n' :: chars ((b.lines.take feed.endLine).drop start.line) ∧
    t'.mark.map Mark.confirmed = some ⟨feed.endLine + 1, 0⟩
  mark : t'.mark.map Mark.checkpoint = some b.checkpoint ∧
    t'.mark.map Mark.generation = (seeks ++ resets ++ tells).getLast?.map Entry.after
  tracked : t'.tracked = some b.id

/-! ## The parts of a course -/

theorem Unplaced.opened {b : Buffer} {t : Tracker} {g : Nat} {es : List Entry}
    (h : Unplaced b t g es) (hg : ∀ e ∈ es.head?, e.before = g) :
    es.map Entry.command =
        ((t.usableMark? b.id g).toList.map fun m => Command.seekBefore (m.resumePoint b)) ∧
      ∀ e ∈ es, e.Strays := by
  cases h with
  | unmarked h => simp [h]
  | @astray m e p hm he hp hstray =>
    have hmg : m.generation = g := (Tracker.usableMark?_eq_some_iff.mp hm).2.2
    have hbefore : e.before = g := hg e rfl
    refine ⟨by simp [hm, he], fun e' he' => ?_⟩
    rw [List.mem_singleton.mp he']
    refine ⟨p, hp, ?_⟩
    by_cases h : e.after = m.generation
    · exact Or.inl (hstray h)
    · exact Or.inr (by rwa [hbefore, ← hmg])

/-- **The opening of a sync** is a seek where there is a usable mark, and a reset where there was
no seek or the server strayed. -/
theorem Opening.opened {b : Buffer} {t t' : Tracker} {g : Nat} {es : List Entry}
    {r : Except BridgeError (SyncMode × Position)} (h : Opening b t g es t' r)
    (hg : ∀ e ∈ es.head?, e.before = g) :
    ∃ seeks resets, es = seeks ++ resets ∧ Opened b t g seeks resets ∧
      ∀ mode start, r = .ok (mode, start) → Begins mode start seeks resets ∧ 1 ≤ start.line := by
  cases h with
  | @lost m e c hm he hc =>
    refine ⟨[e], [], rfl, ⟨by simp [hm, he], Or.inr ⟨rfl, e, List.mem_singleton_self e, ?_⟩⟩,
      fun _ _ h => by cases h⟩
    rintro ⟨p, hp, -⟩
    rw [hc] at hp
    cases hp
  | @landed m e p hm he hp hafter hline =>
    have hmg : m.generation = g := (Tracker.usableMark?_eq_some_iff.mp hm).2.2
    have hbefore : e.before = g := hg e rfl
    refine ⟨[e], [], rfl, ⟨by simp [hm, he], Or.inr ⟨rfl, e, List.mem_singleton_self e, ?_⟩⟩,
      fun mode start h => ?_⟩
    · rintro ⟨q, hq, hstray⟩
      obtain rfl : p = q := Except.ok.inj (hp.symm.trans hq)
      rcases hstray with hstray | hstray
      · omega
      · exact hstray (by rw [hafter, hmg, hbefore])
    · obtain ⟨rfl, rfl⟩ := Prod.mk.inj (Except.ok.inj h)
      exact ⟨⟨fun h => absurd rfl h, fun _ => ⟨rfl, e, rfl, hp⟩⟩, by omega⟩
  | @reset seeks e hseeks he =>
    have hg' : ∀ e' ∈ seeks.head?, e'.before = g := by
      intro e' he'
      cases seeks with
      | nil => cases he'
      | cons _ _ => exact hg e' he'
    obtain ⟨hcommand, hstrays⟩ := hseeks.opened hg'
    refine ⟨seeks, [e], rfl, ⟨hcommand, Or.inl ⟨by simp [he], hstrays⟩⟩, fun mode start h => ?_⟩
    cases hp : e.position with
    | error c =>
      rw [hp] at h
      cases h
    | ok p =>
      rw [hp] at h
      obtain ⟨rfl, rfl⟩ := Prod.mk.inj (Except.ok.inj h)
      exact ⟨⟨fun _ => ⟨rfl, rfl⟩, fun h => absurd h (List.cons_ne_nil _ _)⟩, Nat.le_refl 1⟩

theorem Opened.generation_eq {b : Buffer} {t : Tracker} {g : Nat} {seeks resets : List Entry}
    (h : Opened b t g seeks resets) (tells : List Entry) (g' : Nat) :
    some (generationAfter g' (seeks ++ resets ++ tells)) =
      (seeks ++ resets ++ tells).getLast?.map Entry.after := by
  have hne : seeks ++ resets ++ tells ≠ [] := by
    rcases h.reset with ⟨hr, -⟩ | ⟨-, e, he, -⟩
    · have : resets ≠ [] := by
        rintro rfl
        cases hr
      simp [this]
    · have : seeks ≠ [] := List.ne_nil_of_mem he
      simp [this]
  rw [generationAfter, List.getLast?_eq_some_getLast hne]
  rfl

theorem Telling.commands {lines : List String} {start : Position} {endLine : Nat}
    {es : List Entry} {r : Except BridgeError (Option FeedReport)}
    (h : Telling lines start endLine es r) :
    es = [] ∨ ∃ (chunk : List String) (chunks : List (List String)),
      es.map Entry.command = Command.tell .struct chunk :: chunks.map (Command.tell .ending) := by
  cases h with
  | nothing => exact Or.inl rfl
  | feed _ hfeed => exact Or.inr ⟨_, _, hfeed.commands⟩

variable {σ : Type} [Transport σ]

/-- **The transcript of one sync,** with any server, any tracker, any buffer and any target. -/
theorem syncTo_transcript (b : Buffer) (target : Position) (t : Tracker) (s : σ) :
    ∃ r t' seeks resets tells ends,
      (syncTo b target).run ⟨Recorded.ofTransport s, t⟩ = (r, t') ∧
      t'.server.history = seeks ++ resets ++ tells ++ ends ∧
      Transcript b target t (Transport.generation s) seeks resets tells ends r ∧
      ∀ report, r = .ok report →
        ∃ start, Completed b target t'.tracker report start seeks resets tells ends := by
  obtain ⟨es, ⟨s', t'⟩, r, htalk, hcourse, hrun⟩ :=
    run_syncTo b target (⟨Recorded.ofTransport s, t⟩ : Tracked (Recorded σ))
  have hg : Transport.generation (Recorded.ofTransport s) = Transport.generation s := rfl
  simp only [hg] at htalk hcourse
  have hhistory := htalk.history_eq
  have hsettles := hcourse.settles
  -- whatever the opening is, its first command meets the process that the sync began with
  have hbefore : ∀ {es' fs : List Entry}, es = es' ++ fs →
      ∀ e ∈ es'.head?, e.before = Transport.generation s := by
    rintro es' fs rfl e he
    cases es' with
    | nil => cases he
    | cons e' es' =>
      obtain rfl : e' = e := Option.some.inj he
      exact htalk.before_eq
  cases hcourse with
  | unopened hopen =>
    obtain ⟨seeks, resets, rfl, hopened, -⟩ := hopen.opened (hbefore (List.append_nil es).symm)
    refine ⟨_, _, seeks, resets, [], [], hrun, by simpa using hhistory,
      ⟨hopened, Or.inl rfl, Or.inl rfl, ?_⟩, fun _ h => by cases h⟩
    rwa [List.append_nil, List.append_nil]
  | @cut es fs t'' mode start c hopen htelling =>
    obtain ⟨seeks, resets, rfl, hopened, -⟩ := hopen.opened (hbefore rfl)
    refine ⟨_, _, seeks, resets, fs, [], hrun, by simpa using hhistory,
      ⟨hopened, htelling.commands, Or.inl rfl, ?_⟩, fun _ h => by cases h⟩
    rwa [List.append_nil]
  | @unsought es fs t'' mode start feed e c hopen htelling he hp =>
    obtain ⟨seeks, resets, rfl, hopened, -⟩ :=
      hopen.opened (hbefore (List.append_assoc es fs [e]))
    exact ⟨_, _, seeks, resets, fs, [e], hrun, hhistory,
      ⟨hopened, htelling.commands, Or.inr (by simp [he]), hsettles⟩, fun _ h => by cases h⟩
  | @done es fs t'' mode start feed e p hopen htelling he hp =>
    obtain ⟨seeks, resets, rfl, hopened, hbegins⟩ :=
      hopen.opened (hbefore (List.append_assoc es fs [e]))
    obtain ⟨hbegins, hstart⟩ := hbegins mode start rfl
    refine ⟨_, _, seeks, resets, fs, [e], hrun, hhistory,
      ⟨hopened, htelling.commands, Or.inr (by simp [he]), hsettles⟩,
      fun report hreport => ⟨start, ?_⟩⟩
    obtain rfl := Except.ok.inj hreport
    have hmark := hopened.generation_eq fs (Transport.generation s)
    rcases htelling.told hstart (Nat.min_le_right _ _) with
      ⟨rfl, hlt, rfl⟩ | ⟨hne, hle, feed, rfl, hgoal, hlen, htold⟩
    · exact ⟨hbegins, ⟨e, rfl, he, hp⟩, iff_of_true rfl hlt, fun _ => ⟨rfl, rfl⟩,
        fun h => absurd rfl h, ⟨rfl, hmark⟩, rfl⟩
    · obtain ⟨line, hline, hchars⟩ := chars_delta hstart (Nat.le_trans hle hgoal) hlen
      exact ⟨hbegins, ⟨e, rfl, he, hp⟩, iff_of_false hne (Nat.not_lt.mpr hle),
        fun h => absurd h hne,
        fun _ => ⟨feed, line, rfl, hline, hgoal, hlen, htold.trans hchars, rfl⟩,
        ⟨rfl, hmark⟩, rfl⟩

end Sync

end EditorBridge
