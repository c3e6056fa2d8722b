import EditorBridge.Proofs.Server.Talk
import EditorBridge.Proofs.Text.Place

/-!
# A server that holds a text

The server that the bridge counts on, as a transport. Its process holds a text and a cursor: a
reset empties the text, a seek moves the cursor, a tell replaces what follows the cursor, and other
commands leave both alone (`Request.obey`). What the bridge cannot foresee is written in a script,
one reaction for a command: where the cursor lands, the answer, whether a command that failed was
carried out nevertheless, and whether the process has been replaced by an empty one before it.

What a command does to the process that carried it (`carrier`) is `next_cases`, and what becomes of
this for the commands of the bridge is stated by one lemma for each kind of command and of answer
(`process_of_reset`, `process_seekBefore` and so on).
-/

namespace EditorBridge

open Text

theorem eq_ok_of_toOption {ε α : Type} {r : Except ε α} {a : α} (h : r.toOption = some a) :
    r = .ok a := by
  cases r with
  | error c => cases h
  | ok b => exact congrArg Except.ok (Option.some.inj h)

theorem toOption_eq_some_iff {ε α : Type} {r : Except ε α} {a : α} :
    r.toOption = some a ↔ r = .ok a := by
  refine ⟨eq_ok_of_toOption, ?_⟩
  rintro rfl
  rfl

theorem Position.eq_of_ofJson?_toJson {p q : Position} (h : Position.ofJson? p.toJson = some q) :
    q = p := by
  have hcoordinate : ∀ n m : Nat, coordinateOfJson? (.ofNat n) = some m → m = n := by
    intro n m h
    change (if (0 : Int) ≤ n ∧ (n : Int) ≤ maxWord32 then some n else none) = some m at h
    split at h
    · exact (Option.some.inj h).symm
    · cases h
  obtain ⟨line, col⟩ := p
  change (do
    let line' ← coordinateOfJson? (.ofNat line)
    let col' ← coordinateOfJson? (.ofNat col)
    some (⟨line', col'⟩ : Position)) = some q at h
  cases hl : coordinateOfJson? (.ofNat line) with
  | none =>
    rw [hl] at h
    cases h
  | some line' =>
    cases hc : coordinateOfJson? (.ofNat col) with
    | none =>
      rw [hl, hc] at h
      cases h
    | some col' =>
      rw [hl, hc] at h
      rw [← Option.some.inj h, hcoordinate _ _ hl, hcoordinate _ _ hc]

/-- A server process that holds a text. -/
structure TextProcess where
  /-- The file that the text belongs to, as the last reset has named it. -/
  name : Option String
  /-- The text before the cursor. -/
  front : List Char
  /-- The text after the cursor. -/
  back : List Char
deriving DecidableEq

namespace TextProcess

/-- A process that has been told nothing. -/
def fresh : TextProcess := ⟨none, [], []⟩

def text (p : TextProcess) : List Char := p.front ++ p.back

/-- The cursor moves to the place after `n` characters. -/
def moveTo (p : TextProcess) (n : Nat) : TextProcess :=
  { p with front := p.text.take n, back := p.text.drop n }

/-- A text replaces what follows the cursor. -/
def tell (p : TextProcess) (cs : List Char) : TextProcess :=
  { p with front := p.front ++ cs, back := [] }

@[simp] theorem text_moveTo (p : TextProcess) (n : Nat) : (p.moveTo n).text = p.text :=
  List.take_append_drop n p.text

theorem prefix_text (p : TextProcess) : p.front <+: p.text := List.prefix_append _ _

end TextProcess

/-- What a command asks of a text. -/
inductive Request where
  | reset (name : Option String)
  /-- Move the cursor to some place not after a position. -/
  | seekBefore (p : Position)
  /-- Move the cursor. -/
  | seek
  | tell (text : List Char)
  /-- Leave the text and the cursor alone. -/
  | other

namespace Request

def position? : Json → Option Position
  | .object [("col", .number (.integer col)), ("line", .number (.integer line))] =>
    some ⟨line.toNat, col.toNat⟩
  | _ => none

def ofCommand (c : Command) : Request :=
  match c.name, c.args with
  | "reset", [_, .string name] => .reset (some name)
  | "reset", _ => .reset none
  | "seek", [.string "before", p] => (position? p).elim .seek .seekBefore
  | "seek", _ => .seek
  | "tell", [_, .string text] => .tell text.toList
  | _, _ => .other

@[simp] theorem ofCommand_reset (name : Option String) :
    ofCommand (Command.reset name) = .reset name := by
  cases name <;> rfl

@[simp] theorem ofCommand_seekBefore (p : Position) :
    ofCommand (Command.seekBefore p) = .seekBefore p := by
  rw [Command.seekBefore, Command.positionArg_eq]
  rfl

@[simp] theorem ofCommand_seekExact (p : Position) : ofCommand (Command.seekExact p) = .seek := rfl

@[simp] theorem ofCommand_tell (kind : TellKind) (lines : List String) :
    ofCommand (Command.tell kind lines) = .tell (Command.chunkText lines).toList := rfl

@[simp] theorem ofCommand_loadProject (path : String) :
    ofCommand (Command.loadProject path) = .other := rfl

/-- Where the cursor lands that is to go to the place after `n` characters: there, unless this is
after a position that it must not go beyond. -/
def landing (limit : Position) (p : TextProcess) (n : Nat) : Nat :=
  if place (p.text.take n) ≤ limit then n else 0

/-- What a process does that carries out a request. -/
def obey (n : Nat) (p : TextProcess) : Request → TextProcess
  | .reset name => ⟨name, [], []⟩
  | .seekBefore limit => p.moveTo (landing limit p n)
  | .seek => p.moveTo n
  | .tell text => p.tell text
  | .other => p

/-- Whether a `return` with a payload answers a request. -/
def accepts (payload : Json) : Request → Bool
  | .tell _ | .other => true
  | _ => (Position.ofJson? payload).isSome

/-- The answer of a process that has carried out a request: the place where it landed, or else the
payload there is. -/
def answer (payload : Json) (p : TextProcess) : Request → Json
  | .seekBefore _ => (place p.front).toJson
  | _ => payload

end Request

/-- What happens when a command is sent. -/
structure Reaction where
  /-- Whether the process has been replaced by an empty one. -/
  replaced : Bool
  /-- How many characters would stand before the cursor after a seek. -/
  cursor : Nat
  /-- The answer, which may be a failure. -/
  answer : Except BridgeError Outcome
  /-- Whether a command that failed was carried out. -/
  obeyed : Bool

/-- The process there is carries a command out and answers it. -/
def Reaction.accept (payload : Json) (cursor : Nat) : Reaction :=
  ⟨false, cursor, .ok (.accepted payload), true⟩

/-- The process is replaced, and the new one carries a command out and answers it. -/
def Reaction.acceptAnew (payload : Json) : Reaction := ⟨true, 0, .ok (.accepted payload), true⟩

/-- A server that holds a text, and what is going to happen to it. -/
structure TextServer where
  generation : Nat
  process : TextProcess
  script : List Reaction

namespace TextServer

/-- The server meets the next reaction: its process may be replaced. -/
def meet (s : TextServer) (r : Reaction) (script : List Reaction) : TextServer :=
  if r.replaced then ⟨s.generation + 1, .fresh, script⟩ else { s with script := script }

/-- The server answers a request: it carries it out if the answer is one, and otherwise perhaps. -/
def react (s : TextServer) (r : Reaction) (request : Request) :
    Except BridgeError Outcome × TextServer :=
  let process := request.obey r.cursor s.process
  match r.answer with
  | .ok (.accepted payload) =>
    if request.accepts payload then
      (.ok (.accepted (request.answer payload process)), { s with process := process })
    else (r.answer, if r.obeyed then { s with process := process } else s)
  | _ => (r.answer, if r.obeyed then { s with process := process } else s)

/-- Takes a command. At the end of the script the output is closed. -/
def call (command : Command) : Exchange TextServer Outcome :=
  .ofFun fun s =>
    match s.script with
    | [] => (.error .closed, s)
    | r :: script => (s.meet r script).react r (Request.ofCommand command)

instance : Transport TextServer where
  call := call
  generation := generation

open Transport (next entry)

/-- The process that carried a command. -/
def carrier (s : TextServer) (command : Command) : TextProcess :=
  if (entry s command).after = (entry s command).before then s.process else .fresh

theorem react_cases (s : TextServer) (r : Reaction) (request : Request) :
    (∃ n payload, request.accepts payload = true ∧
      (s.react r request).2 = { s with process := request.obey n s.process } ∧
      (s.react r request).1 = .ok (.accepted
        (request.answer payload (request.obey n s.process)))) ∨
    ((∀ payload, (s.react r request).1 = .ok (.accepted payload) →
        request.accepts payload = false) ∧
      ((s.react r request).2 = s ∨
        ∃ n, (s.react r request).2 = { s with process := request.obey n s.process })) := by
  have hobeyed : (if r.obeyed then { s with process := request.obey r.cursor s.process } else s) =
      s ∨ ∃ n, (if r.obeyed then { s with process := request.obey r.cursor s.process } else s) =
        { s with process := request.obey n s.process } := by
    cases r.obeyed
    · exact Or.inl rfl
    · exact Or.inr ⟨r.cursor, rfl⟩
  unfold react
  rcases hr : r.answer with c | payload | rejection
  · exact Or.inr ⟨fun _ h => (nomatch h), hobeyed⟩
  · cases ha : request.accepts payload with
    | true => exact Or.inl ⟨r.cursor, payload, ha, by simp [ha], by simp [ha]⟩
    | false =>
      refine Or.inr ⟨fun payload' h => ?_, by simpa [ha] using hobeyed⟩
      simp only [ha, Bool.false_eq_true, if_false] at h
      obtain rfl : payload = payload' := by simpa using h
      exact ha
  · exact Or.inr ⟨fun _ h => (by simp at h), hobeyed⟩

@[simp] theorem generation_react (s : TextServer) (r : Reaction) (request : Request) :
    (s.react r request).2.generation = s.generation := by
  rcases s.react_cases r request with ⟨n, _, -, h, -⟩ | ⟨-, h | ⟨n, h⟩⟩ <;> rw [h]

@[simp] theorem script_react (s : TextServer) (r : Reaction) (request : Request) :
    (s.react r request).2.script = s.script := by
  rcases s.react_cases r request with ⟨n, _, -, h, -⟩ | ⟨-, h | ⟨n, h⟩⟩ <;> rw [h]

theorem call_cases (s : TextServer) (command : Command) :
    (s.script = [] ∧ next s command = s ∧ (entry s command).answer = .error .closed) ∨
      ∃ r script, s.script = r :: script ∧
        next s command = ((s.meet r script).react r (Request.ofCommand command)).2 ∧
        (entry s command).answer = ((s.meet r script).react r (Request.ofCommand command)).1 := by
  cases hs : s.script with
  | nil =>
    have h : (Transport.call command).run s = (.error .closed, s) := by
      change (match s.script with | [] => _ | r :: script => _) = _
      rw [hs]
    exact Or.inl ⟨rfl, congrArg Prod.snd h, congrArg Prod.fst h⟩
  | cons r script =>
    have h : (Transport.call command).run s =
        (s.meet r script).react r (Request.ofCommand command) := by
      change (match s.script with | [] => _ | r :: script => _) = _
      rw [hs]
    exact Or.inr ⟨r, script, rfl, congrArg Prod.snd h, congrArg Prod.fst h⟩

theorem carrier_eq {s : TextServer} {command : Command} {r : Reaction} {script : List Reaction}
    (h : (next s command).generation = (s.meet r script).generation) :
    s.carrier command = (s.meet r script).process := by
  have hafter : (entry s command).after = (s.meet r script).generation := h
  have hbefore : (entry s command).before = s.generation := rfl
  rw [carrier, hafter, hbefore]
  unfold meet
  cases r.replaced <;> simp

/-- **A command that is answered well is carried out,** and one that is not may be. -/
theorem next_cases (s : TextServer) (command : Command) :
    (∃ n payload, (Request.ofCommand command).accepts payload = true ∧
      (next s command).process = (Request.ofCommand command).obey n (s.carrier command) ∧
      (entry s command).answer = .ok (.accepted
        ((Request.ofCommand command).answer payload (next s command).process))) ∨
    ((∀ payload, (entry s command).answer = .ok (.accepted payload) →
        (Request.ofCommand command).accepts payload = false) ∧
      ((next s command).process = s.carrier command ∨
        ∃ n, (next s command).process =
          (Request.ofCommand command).obey n (s.carrier command))) := by
  rcases s.call_cases command with ⟨-, hnext, hanswer⟩ | ⟨r, script, -, hnext, hanswer⟩
  · refine Or.inr ⟨fun _ h => ?_, Or.inl ?_⟩
    · rw [hanswer] at h
      cases h
    · have hafter : (entry s command).after = (entry s command).before :=
        congrArg generation hnext
      rw [carrier, if_pos hafter, hnext]
  · rw [carrier_eq (hnext ▸ generation_react _ _ _), hanswer, hnext]
    rcases (s.meet r script).react_cases r (Request.ofCommand command) with
      ⟨n, payload, ha, hs, hr⟩ | ⟨ha, hs | ⟨n, hs⟩⟩
    · exact Or.inl ⟨n, payload, ha, by rw [hs], by rw [hr, hs]⟩
    · exact Or.inr ⟨ha, Or.inl (by rw [hs])⟩
    · exact Or.inr ⟨ha, Or.inr ⟨n, by rw [hs]⟩⟩

theorem generation_le_next (s : TextServer) (command : Command) :
    s.generation ≤ (next s command).generation := by
  rcases s.call_cases command with ⟨-, hnext, -⟩ | ⟨r, script, -, hnext, -⟩
  · exact Nat.le_of_eq (congrArg generation hnext).symm
  · rw [hnext, generation_react]
    unfold meet
    cases r.replaced <;> simp

theorem script_next (s : TextServer) (command : Command) :
    (next s command).script = s.script.tail := by
  rcases s.call_cases command with ⟨hs, hnext, -⟩ | ⟨r, script, hs, hnext, -⟩
  · rw [hnext, hs]
    rfl
  · rw [hnext, script_react, hs]
    unfold meet
    cases r.replaced <;> rfl

/-- A command is carried by the process there is, unless the script replaces it first. -/
theorem steady_of_head {s : TextServer} (h : ∀ r ∈ s.script.head?, r.replaced = false)
    (command : Command) : (entry s command).after = (entry s command).before := by
  change (next s command).generation = s.generation
  rcases s.call_cases command with ⟨-, hnext, -⟩ | ⟨r, script, hs, hnext, -⟩
  · rw [hnext]
  · have hr : r.replaced = false := h r (by rw [hs]; rfl)
    rw [hnext, generation_react]
    simp [meet, hr]

/-! ## The commands of the bridge -/

/-- A reset that is answered by a position has emptied the text. -/
theorem process_of_reset {s : TextServer} {name : Option String} {p : Position}
    (h : (entry s (Command.reset name)).position = .ok p) :
    (next s (Command.reset name)).process = ⟨name, [], []⟩ := by
  obtain ⟨payload, hanswer, hp⟩ := Entry.reading_eq_ok_iff.mp h
  rcases s.next_cases (Command.reset name) with ⟨n, _, -, hprocess, -⟩ | ⟨hfails, -⟩
  · rw [hprocess, Request.ofCommand_reset]
    rfl
  · have hfail := hfails payload hanswer
    rw [Request.ofCommand_reset] at hfail
    simp [Request.accepts, hp] at hfail

/-- A command that moves the cursor at most keeps the text and its name. -/
theorem process_of_moveTo (s : TextServer) {command : Command}
    (h : ∀ n p, ∃ k, (Request.ofCommand command).obey n p = p.moveTo k) :
    (next s command).process.text = (s.carrier command).text ∧
      (next s command).process.name = (s.carrier command).name := by
  have hobey : ∀ n, (next s command).process = (Request.ofCommand command).obey n
      (s.carrier command) → (next s command).process.text = (s.carrier command).text ∧
        (next s command).process.name = (s.carrier command).name := by
    intro n hn
    obtain ⟨k, hk⟩ := h n (s.carrier command)
    rw [hn, hk]
    exact ⟨TextProcess.text_moveTo _ _, rfl⟩
  rcases s.next_cases command with ⟨n, _, -, hn, -⟩ | ⟨-, hsame | ⟨n, hn⟩⟩
  · exact hobey n hn
  · rw [hsame]
    exact ⟨rfl, rfl⟩
  · exact hobey n hn

theorem process_seekBefore (s : TextServer) (limit : Position) :
    (next s (Command.seekBefore limit)).process.text =
        (s.carrier (Command.seekBefore limit)).text ∧
      (next s (Command.seekBefore limit)).process.name =
        (s.carrier (Command.seekBefore limit)).name := by
  refine s.process_of_moveTo fun n p => ⟨Request.landing limit p n, ?_⟩
  rw [Request.ofCommand_seekBefore]
  rfl

theorem process_seekExact (s : TextServer) (target : Position) :
    (next s (Command.seekExact target)).process.text =
        (s.carrier (Command.seekExact target)).text ∧
      (next s (Command.seekExact target)).process.name =
        (s.carrier (Command.seekExact target)).name :=
  s.process_of_moveTo fun _ _ => ⟨_, rfl⟩

/-- A seek that is answered by a position lands there, and if this is not in the first line it is
not after the limit. -/
theorem place_of_seekBefore {s : TextServer} {limit p : Position}
    (h : (entry s (Command.seekBefore limit)).position = .ok p) (hline : 1 < p.line) :
    place (next s (Command.seekBefore limit)).process.front = p ∧ p ≤ limit := by
  obtain ⟨payload, hanswer, hp⟩ := Entry.reading_eq_ok_iff.mp h
  rcases s.next_cases (Command.seekBefore limit) with ⟨n, _, -, hprocess, hlanded⟩ | ⟨hfails, -⟩
  · rw [hanswer, Request.ofCommand_seekBefore] at hlanded
    have hpayload : payload = (place (next s (Command.seekBefore limit)).process.front).toJson :=
      Outcome.accepted.inj (Except.ok.inj hlanded)
    have hfront := Position.eq_of_ofJson?_toJson (hpayload ▸ hp)
    refine ⟨hfront.symm, ?_⟩
    have hmoved : (next s (Command.seekBefore limit)).process.front =
        (s.carrier (Command.seekBefore limit)).text.take
          (Request.landing limit (s.carrier (Command.seekBefore limit)) n) := by
      rw [hprocess, Request.ofCommand_seekBefore]
      rfl
    rw [hfront, hmoved] at hline ⊢
    unfold Request.landing at hline ⊢
    split
    · assumption
    · rename_i hlimit
      simp [hlimit] at hline
  · have hfail := hfails payload hanswer
    simp [Request.accepts, hp] at hfail

theorem process_of_tell {s : TextServer} {kind : TellKind} {chunk : List String} {b : Bool}
    (h : (entry s (Command.tell kind chunk)).satisfied = .ok b) :
    (next s (Command.tell kind chunk)).process =
      (s.carrier (Command.tell kind chunk)).tell (Command.tell kind chunk).told := by
  obtain ⟨payload, hanswer, -⟩ := Entry.reading_eq_ok_iff.mp h
  rcases s.next_cases (Command.tell kind chunk) with ⟨n, _, -, hprocess, -⟩ | ⟨hfails, -⟩
  · exact hprocess
  · exact absurd (hfails payload hanswer) (by simp [Request.accepts])

/-- A tell replaces what follows the cursor, or it does nothing. -/
theorem process_tell (s : TextServer) (kind : TellKind) (chunk : List String) :
    (next s (Command.tell kind chunk)).process =
        (s.carrier (Command.tell kind chunk)).tell (Command.tell kind chunk).told ∨
      (next s (Command.tell kind chunk)).process = s.carrier (Command.tell kind chunk) := by
  rcases s.next_cases (Command.tell kind chunk) with ⟨n, _, -, h, -⟩ | ⟨-, h | ⟨n, h⟩⟩
  · exact Or.inl h
  · exact Or.inr h
  · exact Or.inl h

theorem process_loadProject (s : TextServer) (path : String) :
    (next s (Command.loadProject path)).process = s.carrier (Command.loadProject path) := by
  rcases s.next_cases (Command.loadProject path) with ⟨n, _, -, h, -⟩ | ⟨-, h | ⟨n, h⟩⟩ <;> exact h

end TextServer

end EditorBridge
