import EditorBridge.Server.Record

/-!
# Talks

A talk is what goes back and forth between the bridge and a server: the commands in their order,
each with the answer it got and the numbers of the server processes before and after it.
`Talk s es s'` says that sending the commands of `es` in turn, beginning in state `s`, brings those
answers and leaves `s'`.

An exchange is described by its talk: `run_request` is the talk of one command, and longer
exchanges put talks together (`Talk.append`). On a recorded transport the talk is what the record
grows by (`Talk.recorded`), so that a statement about talks is one about what is really sent.
-/

namespace EditorBridge

variable {σ α : Type}

namespace Entry

/-- What the answer is to one who reads payloads with `decode`. -/
def reading (decode : Json → Option α) (e : Entry) : Except BridgeError α :=
  match e.answer with
  | .error cause => .error cause
  | .ok (.rejected r) => .error (.rejected r)
  | .ok (.accepted payload) =>
    match decode payload with
    | none => .error (.unexpectedPayload e.command.label)
    | some a => .ok a

def position (e : Entry) : Except BridgeError Position := e.reading Position.ofJson?

/-- Whether the answer to a tell says that the server is satisfied. -/
def satisfied (e : Entry) : Except BridgeError Bool :=
  e.reading fun answer => some answer.isTruthy

theorem reading_eq_ok_iff {decode : Json → Option α} {e : Entry} {a : α} :
    e.reading decode = .ok a ↔
      ∃ payload, e.answer = .ok (.accepted payload) ∧ decode payload = some a := by
  unfold reading
  split
  · rename_i cause h; simp [h]
  · rename_i r h; simp [h]
  · rename_i payload h
    split <;> simp_all

end Entry

/-! ## What is told -/

namespace Command

/-- The text that a command tells the server. -/
def told (c : Command) : List Char :=
  match c.name, c.args with
  | "tell", [_, .string text] => text.toList
  | _, _ => []

@[simp] theorem told_tell (kind : TellKind) (lines : List String) :
    (tell kind lines).told = (chunkText lines).toList := rfl

@[simp] theorem told_reset (name : Option String) : (reset name).told = [] := by
  cases name <;> rfl

@[simp] theorem told_seekBefore (p : Position) : (seekBefore p).told = [] := rfl

@[simp] theorem told_seekExact (p : Position) : (seekExact p).told = [] := rfl

end Command

/-- The text that the commands of a talk tell the server. -/
def told (es : List Entry) : List Char := es.flatMap fun e => e.command.told

@[simp] theorem told_nil : told [] = [] := rfl

@[simp] theorem told_cons (e : Entry) (es : List Entry) :
    told (e :: es) = e.command.told ++ told es := List.flatMap_cons

@[simp] theorem told_append (es fs : List Entry) : told (es ++ fs) = told es ++ told fs :=
  List.flatMap_append

theorem told_eq_flatMap (es : List Entry) :
    told es = (es.map Entry.command).flatMap Command.told := by
  rw [told, List.flatMap_map]

/-! ## Talks -/

/-- The number of the server process after a talk that began with process `g`. -/
def generationAfter (g : Nat) (es : List Entry) : Nat := (es.getLast?.map Entry.after).getD g

@[simp] theorem generationAfter_nil (g : Nat) : generationAfter g [] = g := rfl

@[simp] theorem generationAfter_concat (g : Nat) (es : List Entry) (e : Entry) :
    generationAfter g (es ++ [e]) = e.after := by
  simp [generationAfter]

variable [Transport σ]

namespace Transport

def next (s : σ) (command : Command) : σ := ((Transport.call command).run s).2

/-- What is to be recorded of a command. -/
def entry (s : σ) (command : Command) : Entry :=
  ⟨command, ((Transport.call command).run s).1, Transport.generation s,
    Transport.generation (next s command)⟩

end Transport

open Transport (next entry)

/-- The commands of `es`, sent in turn from `s`, are answered as `es` says and leave `s'`. -/
inductive Talk : σ → List Entry → σ → Prop
  | nil (s : σ) : Talk s [] s
  | cons {s s' : σ} {command : Command} {es : List Entry} :
      Talk (next s command) es s' → Talk s (entry s command :: es) s'

/-- **One command is a talk of one entry,** and its result is what the answer reads as. -/
theorem run_request (command : Command) (decode : Json → Option α) (s : σ) :
    (request command decode).run s = ((entry s command).reading decode, next s command) := by
  unfold request
  rw [Exchange.run_bind]
  unfold Entry.reading entry next
  rcases (Transport.call command).run s with ⟨(cause | payload | r), s'⟩
  · rfl
  · cases h : decode payload <;> simp [h]
  · rfl

theorem run_request_bind {β : Type} (command : Command) (decode : Json → Option α)
    (f : α → Exchange σ β) (s : σ) :
    (request command decode >>= f).run s =
      match (entry s command).reading decode with
      | .ok a => (f a).run (next s command)
      | .error c => (.error c, next s command) := by
  rw [Exchange.run_bind, run_request]
  cases (entry s command).reading decode <;> rfl

namespace Talk

theorem single (s : σ) (command : Command) : Talk s [entry s command] (next s command) :=
  .cons (.nil _)

theorem append {s s' s'' : σ} {es fs : List Entry} (h : Talk s es s') (g : Talk s' fs s'') :
    Talk s (es ++ fs) s'' := by
  induction h with
  | nil s => exact g
  | cons _ ih => exact .cons (ih g)

/-- What every command keeps, a talk keeps. -/
theorem keeps {P : σ → Prop} (hP : ∀ s command, P s → P (next s command)) {s s' : σ}
    {es : List Entry} (h : Talk s es s') (hs : P s) : P s' := by
  induction h with
  | nil s => exact hs
  | @cons s s' command es _ ih => exact ih (hP s command hs)

theorem of_nil {s s' : σ} (h : Talk s [] s') : s' = s := by
  cases h
  rfl

theorem of_cons {s s' : σ} {e : Entry} {es : List Entry} (h : Talk s (e :: es) s') :
    e = entry s e.command ∧ Talk (next s e.command) es s' := by
  cases h with
  | cons h => exact ⟨rfl, h⟩

theorem of_append {s s'' : σ} {es fs : List Entry} (h : Talk s (es ++ fs) s'') :
    ∃ s', Talk s es s' ∧ Talk s' fs s'' := by
  induction es generalizing s with
  | nil => exact ⟨s, .nil s, h⟩
  | cons e es ih =>
    obtain ⟨he, h⟩ := of_cons h
    obtain ⟨s', hs, hf⟩ := ih h
    refine ⟨s', ?_, hf⟩
    rw [he]
    exact .cons hs

theorem of_single {s s' : σ} {e : Entry} (h : Talk s [e] s') :
    e = entry s e.command ∧ s' = next s e.command := by
  obtain ⟨he, h⟩ := of_cons h
  exact ⟨he, of_nil h⟩

theorem before_eq {s s' : σ} {e : Entry} {es : List Entry} (h : Talk s (e :: es) s') :
    e.before = Transport.generation s := by
  rw [(of_cons h).1]
  rfl

theorem generation_eq {s s' : σ} {es : List Entry} (h : Talk s es s') :
    Transport.generation s' = generationAfter (Transport.generation s) es := by
  induction h with
  | nil s => rfl
  | @cons s s' command es _ ih =>
    rw [ih]
    rcases List.eq_nil_or_concat es with rfl | ⟨init, e, rfl⟩
    · rfl
    · rw [List.concat_eq_append, ← List.cons_append, generationAfter_concat,
        generationAfter_concat]

/-- The last command of a talk met no new process if the talk ends with the process before it. -/
theorem steady_of_generationAfter_eq {s s' : σ} {es : List Entry} {e : Entry}
    (h : Talk s (es ++ [e]) s')
    (hg : generationAfter (Transport.generation s) es = Transport.generation s') :
    e.after = e.before := by
  obtain ⟨s₁, hes, hlast⟩ := h.of_append
  obtain ⟨he, rfl⟩ := hlast.of_single
  rw [he]
  exact hg.symm.trans hes.generation_eq.symm

/-- A process carries a talk that it is there for: no command of it may meet another one. -/
theorem after_eq_iff {s s' : σ} {es : List Entry} (h : Talk s es s') (g : Nat) :
    (Transport.generation s = g ∧ ∀ e ∈ es, e.after = g) ↔
      Transport.generation s' = g ∧ ∀ e ∈ es, e.after = e.before := by
  induction h with
  | nil s => simp
  | @cons s s' command es _ ih =>
    have hafter : (entry s command).after = Transport.generation (next s command) := rfl
    have hbefore : (entry s command).before = Transport.generation s := rfl
    simp only [List.forall_mem_cons, hafter, hbefore]
    constructor
    · rintro ⟨rfl, hnext, hes⟩
      obtain ⟨hlast, hsteady⟩ := ih.mp ⟨hnext, hes⟩
      exact ⟨hlast, hnext, hsteady⟩
    · rintro ⟨hlast, hnext, hsteady⟩
      obtain ⟨hg, hes⟩ := ih.mpr ⟨hlast, hsteady⟩
      exact ⟨hnext.symm.trans hg, hg, hes⟩

/-- **On a recorded transport a talk is what the record grows by,** and the same talk goes on with
the transport inside. -/
theorem recorded {r r' : Recorded σ} {es : List Entry} (h : Talk r es r') :
    r'.entries = es.reverse ++ r.entries ∧ Talk r.inner es r'.inner := by
  induction h with
  | nil r => exact ⟨rfl, .nil _⟩
  | @cons r r' command es _ ih =>
    obtain ⟨hr, ht⟩ := ih
    refine ⟨?_, .cons ht⟩
    rw [hr, List.reverse_cons, List.append_assoc]
    rfl

theorem history_eq {s : σ} {r : Recorded σ} {es : List Entry}
    (h : Talk (Recorded.ofTransport s) es r) : r.history = es := by
  rw [Recorded.history, (recorded h).1]
  simp [Recorded.ofTransport]

end Talk

end EditorBridge
