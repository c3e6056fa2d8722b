import EditorBridge.Proofs.Sync.Course
import EditorBridge.Proofs.TextServer.Basic

/-!
# What a sync does to the text of a server

A mark is trusted if whatever the server holds before its resume point is text of the buffer
(`Trusts`). A sync keeps this true (`Course.trusts`): it goes on from a place where the server
agrees with the buffer (`Opening.stands`), and what it tells from there is text of the buffer
(`Telling.agrees`, `Telling.stays`), so that the server agrees with it up to the place that the new
mark confirms (`Stored.agrees`). For that the tells must be carried by one process.

An edit moves the resume point far enough down (`Trusts.change`).
-/

namespace EditorBridge

open Text

/-- A process holds the text of a buffer up to a place, under its name. -/
structure Agrees (b : Buffer) (c : Position) (p : TextProcess) : Prop where
  name : p.name = some b.basename
  text : ∃ front, front <+: p.text ∧ front <+: chars b.lines ∧ place front = c

/-- The cursor of a process is at a place of a buffer, and the text before it is that of the
buffer. -/
structure Stands (b : Buffer) (start : Position) (p : TextProcess) : Prop where
  name : p.name = some b.basename
  front : p.front <+: chars b.lines
  place : place p.front = start

/-- What a process holds before the resume point of a mark is text of the buffer. -/
structure Trusts (b : Buffer) (m : Mark) (p : TextProcess) : Prop where
  buffer : m.checkpoint.buffer = b.id
  revision : m.checkpoint.revision ≤ b.revision
  name : p.name = some b.basename
  text : ∀ front, front <+: p.text → place front ≤ m.resumePoint b → front <+: chars b.lines

theorem Stands.agrees {b : Buffer} {start : Position} {p : TextProcess} (h : Stands b start p) :
    Agrees b start p :=
  ⟨h.name, p.front, p.prefix_text, h.front, h.place⟩

/-- The text before a place, and a delta from there, are a beginning of the text of the buffer. -/
theorem Stands.append_delta {start : Position} {p : TextProcess} (h : Stands b start p)
    (hb : b.IsPlain) {n : Nat} (hn : n ≤ b.lineCount) (hstart : start.line ≤ n) :
    p.front ++ chars (Sync.delta b.lines start n) = chars (b.lines.take n) := by
  rw [← h.place]
  exact Sync.append_chars_delta hb h.front hn (h.place ▸ hstart)

/-- A new mark is trusted if the process holds the text before the place it confirms. -/
theorem Agrees.trusts {b : Buffer} (hb : b.IsDated) {c : Position} {p : TextProcess}
    (h : Agrees b c p) (g : Nat) : Trusts b ⟨b.checkpoint, c, g⟩ p := by
  refine ⟨rfl, Nat.le_refl _, h.name, fun front hfront hplace => ?_⟩
  obtain ⟨whole, hwhole, hchars, hc⟩ := h.text
  rw [Mark.resumePoint_fresh hb, ← hc] at hplace
  exact (prefix_of_place_le hfront hwhole hplace).trans hchars

theorem Trusts.of_text_eq {b : Buffer} {m : Mark} {p q : TextProcess} (h : Trusts b m p)
    (htext : q.text = p.text) (hname : q.name = p.name) : Trusts b m q :=
  ⟨h.buffer, h.revision, hname.trans h.name, htext ▸ h.text⟩

theorem Trusts.of_prefix {b : Buffer} {m : Mark} {p q : TextProcess} (h : Trusts b m p)
    (htext : q.text <+: chars b.lines) (hname : q.name = some b.basename) : Trusts b m q :=
  ⟨h.buffer, h.revision, hname, fun _ hfront _ => hfront.trans htext⟩

/-- **A mark stays trusted when the buffer is edited.** The text before the place of the edit is
the same as before, and the resume point is not after it. -/
theorem Trusts.change {b : Buffer} {m : Mark} {p : TextProcess} (h : Trusts b m p)
    (hb : b.IsPlain) (c : Change) : Trusts (b.change c) m p := by
  rcases Buffer.change_cases b c with heq | ⟨lines, q, heq, hshares, -⟩ <;> rw [heq]
  · exact h
  · refine ⟨h.buffer, Nat.le_succ_of_le h.revision, h.name, fun front hfront hplace => ?_⟩
    rw [Mark.resumePoint_record h.buffer h.revision, le_min_iff] at hplace
    obtain ⟨shared, hold, hnew, hq⟩ := hshares hb
    have hlines : front <+: chars b.lines := h.text front hfront hplace.2
    exact (prefix_of_place_le hlines hold (hq ▸ hplace.1)).trans hnew

namespace TextServer

open Transport (next entry)

/-! ## Processes of a talk -/

theorem generation_le_of_talk {s s' : TextServer} {es : List Entry} (h : Talk s es s') :
    s.generation ≤ s'.generation := by
  induction h with
  | nil s => exact Nat.le_refl _
  | cons _ ih => exact Nat.le_trans (generation_le_next _ _) ih

/-- If a talk ends with the process it began with, that process carried all of it. -/
theorem steady_of_generation_le {s s' : TextServer} {es : List Entry} (h : Talk s es s')
    (hle : s'.generation ≤ s.generation) : ∀ e ∈ es, e.after = e.before := by
  induction h with
  | nil s => exact fun e he => absurd he List.not_mem_nil
  | @cons s s' command es h ih =>
    have hnext := generation_le_next s command
    have hrest := generation_le_of_talk h
    intro e he
    rcases List.mem_cons.mp he with rfl | he
    · exact Nat.le_antisymm (Nat.le_trans hrest hle) hnext
    · exact ih (Nat.le_trans hle hnext) e he

theorem carrier_of_steady {s : TextServer} {command : Command}
    (h : (entry s command).after = (entry s command).before) : s.carrier command = s.process :=
  if_pos h

theorem steady_of_script {s s' : TextServer} {es : List Entry} (h : Talk s es s')
    (hscript : ∀ r ∈ s.script, r.replaced = false) : ∀ e ∈ es, e.after = e.before := by
  induction h with
  | nil s => exact fun e he => absurd he List.not_mem_nil
  | @cons s s' command es _ ih =>
    intro e he
    rcases List.mem_cons.mp he with rfl | he
    · exact steady_of_head (fun r hr => hscript r (List.mem_of_mem_head? hr)) command
    · exact ih (fun r hr => hscript r (List.mem_of_mem_tail (script_next s command ▸ hr))) e he

/-- If a process is replaced before the first command at most, one process carries the others. -/
theorem steady_tail_of_script {s s' : TextServer} {es : List Entry} (h : Talk s es s')
    (hscript : ∀ r ∈ s.script.tail, r.replaced = false) : ∀ e ∈ es.tail, e.after = e.before := by
  cases h with
  | nil => exact fun e he => absurd he List.not_mem_nil
  | cons h =>
    refine steady_of_script h ?_
    rw [script_next]
    exact hscript

theorem process_of_loadProjects {s s' : TextServer} {es : List Entry} (h : Talk s es s')
    (hload : ∀ e ∈ es, ∃ path, e.command = Command.loadProject path)
    (hsteady : ∀ e ∈ es, e.after = e.before) : s'.process = s.process := by
  induction h with
  | nil s => rfl
  | @cons s s' command es h ih =>
    obtain ⟨path, hcommand⟩ := hload _ List.mem_cons_self
    have hcarrier := carrier_of_steady (hsteady _ List.mem_cons_self)
    obtain rfl : command = Command.loadProject path := hcommand
    rw [ih (fun e he => hload e (List.mem_cons_of_mem _ he))
      (fun e he => hsteady e (List.mem_cons_of_mem _ he)), process_loadProject, hcarrier]

/-- Tells that are answered add their texts to the text before the cursor. -/
theorem process_of_tells {s s' : TextServer} {es : List Entry} (h : Talk s es s')
    (htell : ∀ e ∈ es, ∃ kind chunk, e.command = Command.tell kind chunk)
    (hok : ∀ e ∈ es, ∃ b, e.satisfied = .ok b) (hsteady : ∀ e ∈ es, e.after = e.before) :
    es = [] ∧ s'.process = s.process ∨
      s'.process = ⟨s.process.name, s.process.front ++ told es, []⟩ := by
  induction h with
  | nil s => exact Or.inl ⟨rfl, rfl⟩
  | @cons s s' command es h ih =>
    obtain ⟨kind, chunk, hcommand⟩ := htell _ List.mem_cons_self
    obtain ⟨b, hb⟩ := hok _ List.mem_cons_self
    have hcarrier := carrier_of_steady (hsteady _ List.mem_cons_self)
    obtain rfl : command = Command.tell kind chunk := hcommand
    have hnext := process_of_tell hb
    rw [hcarrier] at hnext
    right
    rcases ih (fun e he => htell e (List.mem_cons_of_mem _ he))
        (fun e he => hok e (List.mem_cons_of_mem _ he))
        (fun e he => hsteady e (List.mem_cons_of_mem _ he)) with ⟨rfl, hs'⟩ | hs'
    · rw [hs', hnext, told_cons, told_nil, List.append_nil]
      rfl
    · rw [hs', hnext, told_cons, ← List.append_assoc]
      rfl

end TextServer

/-! ## The stages of a sync -/

namespace Sync

open Transport (next entry)
open TextServer

variable {b : Buffer} {t t' : Tracker} {s s' : TextServer} {es : List Entry}

/-- **Where a sync begins to tell, the server agrees with the buffer.** -/
theorem Opening.stands {mode : SyncMode} {start : Position} (htalk : Talk s es s')
    (h : Opening b t s.generation es t' (.ok (mode, start)))
    (htrusts : ∀ m, t.usableMark? b.id s.generation = some m → Trusts b m s.process) :
    Stands b start s'.process := by
  generalize hr : (Except.ok (mode, start) : Except BridgeError _) = r at h
  cases h with
  | lost => cases hr
  | @landed m e p hm he hp hafter hline =>
    obtain ⟨-, rfl⟩ := Prod.mk.inj (Except.ok.inj hr)
    obtain ⟨hentry, rfl⟩ := htalk.of_single
    have htrusts := htrusts m hm
    rw [he] at hentry ⊢
    rw [hentry] at hp hafter
    -- no new process was met, so that the text where the seek landed is the trusted one
    have hsteady : (entry s (Command.seekBefore (m.resumePoint b))).after =
        (entry s (Command.seekBefore (m.resumePoint b))).before :=
      hafter.trans (Tracker.usableMark?_eq_some_iff.mp hm).2.2
    obtain ⟨htext, hname⟩ := process_seekBefore s (m.resumePoint b)
    obtain ⟨hplace, hle⟩ := place_of_seekBefore hp hline
    rw [carrier_of_steady hsteady] at htext hname
    refine ⟨hname.trans htrusts.name, htrusts.text _ ?_ (hplace ▸ hle), hplace⟩
    rw [← htext]
    exact TextProcess.prefix_text _
  | @reset es e hunplaced he =>
    obtain ⟨s₁, -, hlast⟩ := htalk.of_append
    obtain ⟨hentry, rfl⟩ := hlast.of_single
    rw [he] at hentry ⊢
    rw [hentry] at hr
    cases hp : (entry s₁ (Command.reset (some b.basename))).position with
    | error c =>
      rw [hp] at hr
      cases hr
    | ok p =>
      rw [hp] at hr
      obtain ⟨-, rfl⟩ := Prod.mk.inj (Except.ok.inj hr)
      rw [process_of_reset hp]
      exact ⟨rfl, List.nil_prefix, rfl⟩

/-- A mark that is kept over the first commands of a sync stays trusted. -/
theorem Opening.trusts {r : Except BridgeError (SyncMode × Position)} (htalk : Talk s es s')
    (h : Opening b t s.generation es t' r)
    (htrusts : ∀ m, t.usableMark? b.id s.generation = some m → Trusts b m s.process) {m : Mark}
    (hm : t'.mark = some m) (hg : m.generation = s'.generation) : Trusts b m s'.process := by
  have hseek : ∀ {m' : Mark} {e : Entry}, t.usableMark? b.id s.generation = some m' → es = [e] →
      e.command = Command.seekBefore (m'.resumePoint b) → t'.mark = t.mark →
      Trusts b m s'.process := by
    rintro m' e hm' rfl he hmark
    obtain ⟨hmark', -, hgen⟩ := Tracker.usableMark?_eq_some_iff.mp hm'
    obtain rfl : m = m' := Option.some.inj (hm.symm.trans (hmark.trans hmark'))
    obtain ⟨-, rfl⟩ := htalk.of_single
    rw [he] at hg ⊢
    have hsteady : (entry s (Command.seekBefore (m.resumePoint b))).after =
        (entry s (Command.seekBefore (m.resumePoint b))).before := hg.symm.trans hgen
    obtain ⟨htext, hname⟩ := process_seekBefore s (m.resumePoint b)
    rw [carrier_of_steady hsteady] at htext hname
    exact (htrusts m hm').of_text_eq htext hname
  cases h with
  | lost hm' he => exact hseek hm' rfl he rfl
  | landed hm' he => exact hseek hm' rfl he rfl
  | reset => cases hm

theorem Telling.exists_satisfied {lines : List String} {start : Position} {endLine : Nat}
    {feed : Option FeedReport} (h : Telling lines start endLine es (.ok feed)) :
    ∀ e ∈ es, ∃ b, e.satisfied = .ok b := by
  intro e he
  have husable : e.verdict = .ok () := h.settles e he
  rw [h.verdict_eq e he] at husable
  cases hs : e.satisfied with
  | error c =>
    rw [hs] at husable
    cases husable
  | ok b => exact ⟨b, rfl⟩

/-- **After the tells of a sync the server agrees with the buffer** up to where they end. -/
theorem Telling.agrees {start : Position} {endLine : Nat} {feed : Option FeedReport}
    (htalk : Talk s es s') (h : Telling b.lines start endLine es (.ok feed))
    (hend : endLine ≤ b.lineCount) (hb : b.IsPlain) (hstands : Stands b start s.process)
    (hsteady : ∀ e ∈ es, e.after = e.before) : Agrees b (confirmed start feed) s'.process := by
  have hstart : 1 ≤ start.line := hstands.place ▸ one_le_line_place _
  rcases h.told hstart hend with ⟨rfl, -, rfl⟩ | ⟨hne, hle, report, rfl, hgoal, hlen, htold⟩
  · rw [htalk.of_nil]
    exact hstands.agrees
  · rcases process_of_tells htalk h.exists_tell h.exists_satisfied hsteady with ⟨hnil, -⟩ | hs'
    · exact absurd hnil hne
    · rw [htold, hstands.append_delta hb hlen (Nat.le_trans hle hgoal)] at hs'
      rw [hs']
      refine ⟨hstands.name, _, ?_, prefix_chars_take _ _, place_chars_take hb hlen⟩
      rw [TextProcess.text, List.append_nil]

/-- **When a tell of a sync fails** the server holds text of the buffer, or what it held. -/
theorem Telling.stays {start : Position} {endLine : Nat} {c : BridgeError}
    (htalk : Talk s es s') (h : Telling b.lines start endLine es (.error c))
    (hend : endLine ≤ b.lineCount) (hb : b.IsPlain) (hstands : Stands b start s.process)
    (hsteady : ∀ e ∈ es, e.after = e.before) :
    s'.process = s.process ∨
      s'.process.name = some b.basename ∧ s'.process.text <+: chars b.lines := by
  have hstart : 1 ≤ start.line := hstands.place ▸ one_le_line_place _
  have htell := h.exists_tell
  generalize hr : (Except.error c : Except BridgeError (Option FeedReport)) = r at h
  cases h with
  | nothing => cases hr
  | @feed init last hne hfeed =>
    have hle : start.line ≤ endLine := by
      rw [Ne, delta_eq_nil_iff] at hne
      omega
    have hwhole : s.process.front ++ EditorBridge.told (init ++ [last]) <+: chars b.lines := by
      rw [Feed.told_feed_delta hstart hle hend hfeed,
        hstands.append_delta hb (Feed.add_more_le hend init) (Nat.le_add_right_of_le hle)]
      exact prefix_chars_take _ _
    -- all tells but the last were carried out, and the last one perhaps
    obtain ⟨s₁, hinit, hlast⟩ := htalk.of_append
    obtain ⟨hentry, rfl⟩ := hlast.of_single
    obtain ⟨kind, chunk, hcommand⟩ := htell last (by simp)
    have hcarrier : s₁.carrier (Command.tell kind chunk) = s₁.process := by
      refine carrier_of_steady ?_
      rw [← hcommand, ← hentry]
      exact hsteady last (by simp)
    have hlast' := process_tell s₁ kind chunk
    rw [hcarrier, ← hcommand] at hlast'
    rw [told_append, told_cons, told_nil, List.append_nil, ← List.append_assoc] at hwhole
    rcases process_of_tells hinit (fun e he => htell e (List.mem_append_left _ he))
        (fun e he => ⟨false, hfeed.unsatisfied e he⟩)
        (fun e he => hsteady e (List.mem_append_left _ he)) with ⟨rfl, hs₁⟩ | hs₁
    · rw [hs₁] at hlast'
      rcases hlast' with hlast' | hlast'
      · rw [hlast']
        refine Or.inr ⟨hstands.name, ?_⟩
        rw [told_nil, List.append_nil] at hwhole
        simpa [TextProcess.tell, TextProcess.text] using hwhole
      · exact Or.inl hlast'
    · right
      rw [hs₁] at hlast'
      rcases hlast' with hlast' | hlast' <;> rw [hlast']
      · refine ⟨hstands.name, ?_⟩
        simpa [TextProcess.tell, TextProcess.text] using hwhole
      · refine ⟨hstands.name, ?_⟩
        simpa [TextProcess.text] using (List.prefix_append _ _).trans hwhole

theorem Telling.goal_lt_confirmed {start : Position} {target : Position}
    {feed : Option FeedReport} (h : Telling b.lines start (goal b target) es (.ok feed))
    (hstart : 1 ≤ start.line) : goal b target < (confirmed start feed).line := by
  rcases h.told hstart (Nat.min_le_right _ _) with ⟨-, hlt, rfl⟩ | ⟨-, -, report, rfl, hgoal, -⟩
  · exact hlt
  · exact Nat.lt_succ_of_le hgoal

/-- **The server agrees with the buffer up to the place that a new mark confirms,** if the mark is
one of the process that the sync ends with and the tells were carried by one process. -/
theorem Stored.agrees {target : Position} {m : Mark} (htalk : Talk s es s')
    (h : Stored b target t s.generation es m) (hb : b.IsPlain)
    (htrusts : ∀ m, t.usableMark? b.id s.generation = some m → Trusts b m s.process)
    (hg : m.generation = s'.generation)
    (htells : ∀ e ∈ es, e.command.name = "tell" → e.after = e.before) :
    Agrees b m.confirmed s'.process ∧ goal b target < m.confirmed.line := by
  cases h with
  | @intro es fs t'' mode start feed e hopen htelling he =>
    have hfs : ∀ e ∈ fs, e.after = e.before := by
      intro e' he'
      obtain ⟨kind, chunk, hcommand⟩ := htelling.exists_tell e' he'
      exact htells e' (by simp [he']) (by rw [hcommand]; rfl)
    have hend := htalk.steady_of_generationAfter_eq hg
    obtain ⟨s₂, hfront, hlast⟩ := htalk.of_append
    obtain ⟨s₁, hes, htold⟩ := hfront.of_append
    obtain ⟨hentry, rfl⟩ := hlast.of_single
    have hstands := hopen.stands hes htrusts
    have hagrees := htelling.agrees htold (Nat.min_le_right _ _) hb hstands hfs
    rw [hentry, he] at hend
    obtain ⟨htext, hname⟩ := process_seekExact s₂ target
    rw [carrier_of_steady hend] at htext hname
    rw [he]
    exact ⟨⟨hname.trans hagrees.name, htext ▸ hagrees.text⟩,
      htelling.goal_lt_confirmed (hstands.place ▸ one_le_line_place _)⟩

theorem Stored.checkpoint_eq {target : Position} {g : Nat} {m : Mark}
    (h : Stored b target t g es m) : m.checkpoint = b.checkpoint := by
  cases h
  rfl

theorem Stored.generation_le {target : Position} {m : Mark} (htalk : Talk s es s')
    (h : Stored b target t s.generation es m) : m.generation ≤ s'.generation := by
  cases h with
  | intro =>
    obtain ⟨s₁, hfs, hlast⟩ := htalk.of_append
    exact hfs.generation_eq ▸ generation_le_of_talk hlast

theorem Course.generation_le {target : Position} {r : Except BridgeError SyncReport}
    (htalk : Talk s es s') (h : Course b target t s.generation es t' r)
    (hbound : ∀ m, t.mark = some m → m.generation ≤ s.generation) {m : Mark}
    (hm : t'.mark = some m) : m.generation ≤ s'.generation := by
  rcases h.kept_or_stored hm with hkept | hstored
  · exact Nat.le_trans (hbound m hkept) (generation_le_of_talk htalk)
  · exact hstored.generation_le htalk

/-- **A sync leaves a trusted mark,** if the mark is one of the process that the sync ends with and
the tells of the sync were carried by one process. -/
theorem Course.trusts {target : Position} {r : Except BridgeError SyncReport}
    (htalk : Talk s es s') (h : Course b target t s.generation es t' r) (hb : b.IsPlain)
    (hdated : b.IsDated)
    (htrusts : ∀ m, t.usableMark? b.id s.generation = some m → Trusts b m s.process)
    (hbound : ∀ m, t.mark = some m → m.generation ≤ s.generation) {m : Mark}
    (hm : t'.mark = some m) (hg : m.generation = s'.generation)
    (htells : ∀ e ∈ es, e.command.name = "tell" → e.after = e.before) : Trusts b m s'.process := by
  have hnew : Stored b target t s.generation es m → Trusts b m s'.process := by
    intro hstored
    have htrusts := (hstored.agrees htalk hb htrusts hg htells).1.trusts hdated m.generation
    rwa [← hstored.checkpoint_eq] at htrusts
  cases h with
  | unopened hopen => exact hopen.trusts htalk htrusts hm hg
  | @cut es fs t'' mode start c hopen htelling =>
    -- the old mark is kept: what was told before the failure is text of the buffer
    obtain ⟨s₁, hes, hfs⟩ := htalk.of_append
    have hle := hbound m (hopen.mark_of_mark hm)
    have hle₁ := generation_le_of_talk hes
    have hle₂ := generation_le_of_talk hfs
    have hsteady := steady_of_generation_le hfs (by omega)
    have hkept := hopen.trusts hes htrusts hm (by omega)
    rcases htelling.stays hfs (Nat.min_le_right _ _) hb (hopen.stands hes htrusts) hsteady with
      hs' | ⟨hname, htext⟩
    · rwa [hs']
    · exact hkept.of_prefix htext hname
  | unsought hopen htelling he =>
    obtain rfl := Option.some.inj hm
    exact hnew (.intro hopen htelling he)
  | done hopen htelling he =>
    obtain rfl := Option.some.inj hm
    exact hnew (.intro hopen htelling he)

end Sync

end EditorBridge
