import EditorBridge.Server.Record

/-!
# Exchanges that cannot see a difference

An exchange is blind to the difference between two states if it answers the same in both and leaves
states that differ in the same way, or in another way that is given (`Exchange.Blind`). What is put
together from blind exchanges is blind (`Exchange.Blind.bind`).

If no single command can tell two states of a transport apart (`Indistinct`), no exchange with it
can.
-/

namespace EditorBridge

variable {σ α β : Type}

namespace Exchange

/-- In states that are related the answers are the same, and what is left is related. -/
def Blind (R R' : σ → σ → Prop) (x : Exchange σ α) : Prop :=
  ∀ s t, R s t → (x.run s).1 = (x.run t).1 ∧ R' (x.run s).2 (x.run t).2

variable {R R' : σ → σ → Prop}

theorem blind_pure (h : ∀ s t, R s t → R' s t) (a : α) : Blind R R' (pure a : Exchange σ α) :=
  fun s t hst => ⟨rfl, h s t hst⟩

theorem blind_throw (e : BridgeError) : Blind R R (throw e : Exchange σ α) :=
  fun _ _ h => ⟨rfl, h⟩

theorem Blind.bind {x : Exchange σ α} {f : α → Exchange σ β} (hx : Blind R R' x)
    (hf : ∀ a, Blind R' R' (f a)) : Blind R R' (x >>= f) := by
  intro s t h
  obtain ⟨hanswer, hstate⟩ := hx s t h
  rw [run_bind, run_bind]
  rcases hs : x.run s with ⟨c | a, s'⟩ <;> rcases ht : x.run t with ⟨d | b, t'⟩ <;>
    rw [hs, ht] at hanswer hstate
  · exact ⟨congrArg Except.error (Except.error.inj hanswer), hstate⟩
  · cases hanswer
  · cases hanswer
  · obtain rfl : a = b := Except.ok.inj hanswer
    exact hf a s' t' hstate

/-- The same look at related states may be what the rest goes by. -/
theorem Blind.look_bind {f : σ → β} {k : β → Exchange σ α} (hf : ∀ s t, R s t → f s = f t)
    (hk : ∀ b, Blind R R' (k b)) : Blind R R' (look f >>= k) := by
  intro s t h
  rw [run_bind, run_bind, run_look, run_look, hf s t h]
  exact hk (f t) s t h

theorem Blind.change_bind {f : σ → σ} {k : Exchange σ α} (hf : ∀ s t, R s t → R (f s) (f t))
    (hk : Blind R R' k) : Blind R R' (change f >>= fun _ => k) :=
  fun s t h => hk (f s) (f t) (hf s t h)

theorem Blind.unlessRejected {x : Exchange σ α} (hx : Blind R R x) :
    Blind R R x.unlessRejected := by
  intro s t h
  obtain ⟨hanswer, hstate⟩ := hx s t h
  rw [Exchange.unlessRejected, run_ofFun, run_ofFun]
  rcases hs : x.run s with ⟨c | a, s'⟩ <;> rcases ht : x.run t with ⟨d | b, t'⟩ <;>
    rw [hs, ht] at hanswer hstate
  · obtain rfl : c = d := Except.error.inj hanswer
    cases c <;> exact ⟨rfl, hstate⟩
  · cases hanswer
  · cases hanswer
  · obtain rfl : a = b := Except.ok.inj hanswer
    exact ⟨rfl, hstate⟩

end Exchange

open Exchange (Blind)

variable [Transport σ]

/-- No command tells related states of a transport apart, nor any row of commands. -/
def Indistinct (R : σ → σ → Prop) : Prop :=
  ∀ command, Blind R R (Transport.call command : Exchange σ Outcome)

variable {R : σ → σ → Prop}

theorem Indistinct.request (h : Indistinct R) (command : Command) (decode : Json → Option α) :
    Blind R R (request command decode : Exchange σ α) := by
  refine (h command).bind fun outcome => ?_
  cases outcome with
  | rejected r => exact Exchange.blind_throw _
  | accepted payload =>
    dsimp only
    cases decode payload with
    | none => exact Exchange.blind_throw _
    | some a => exact Exchange.blind_pure (fun _ _ h => h) a

/-- A record does not help to tell states apart. -/
theorem Indistinct.recorded (h : Indistinct R) :
    Indistinct fun r r' : Recorded σ => R r.inner r'.inner :=
  fun command r r' hr => h command r.inner r'.inner hr

end EditorBridge
