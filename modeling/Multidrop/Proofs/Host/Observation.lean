import Multidrop.Host.Client

/-!
A host over a transport of which nothing is known: its answers may depend on all that was done with
it. What a call comes to is told together with what was done, in order, for every such transport.
-/

namespace Multidrop.Host

/-- Something that a host did with its transport, and what came of it. -/
inductive Deed where
  | transmitted (packet : List UInt8) (outcome : Except Error Unit)
  | received (outcome : Except Error (List UInt8))
  | paused (milliseconds : Nat)

namespace Deed

def packet? : Deed → Option (List UInt8)
  | transmitted packet _ => some packet
  | _ => none

/-- Whether the transport gave an error. -/
def failed : Deed → Bool
  | transmitted _ (.error _) | received (.error _) => true
  | _ => false

end Deed

/-- A transport with what was done with it. Its answers may depend on all of that. -/
structure Observed where
  transmits : List Deed → List UInt8 → Except Error Unit
  /-- Bytes beyond what is asked for are lost. -/
  receives : List Deed → Nat → Except Error (List UInt8)
  deeds : List Deed := []

namespace Observed

def after (observed : Observed) (deeds : List Deed) : Observed :=
  { observed with deeds := observed.deeds ++ deeds }

theorem after_nil (observed : Observed) : observed.after [] = observed := by
  rw [after, List.append_nil]

theorem after_after (observed : Observed) (first second : List Deed) :
    (observed.after first).after second = observed.after (first ++ second) := by
  rw [after, after, after, List.append_assoc]

end Observed

instance : Transport (StateM Observed) where
  transmit packet := fun observed =>
    let outcome := observed.transmits observed.deeds packet
    (outcome, observed.after [.transmitted packet outcome])
  receive size := fun observed =>
    let outcome := (·.take size) <$> observed.receives observed.deeds size
    (outcome, observed.after [.received outcome])
  pause milliseconds := fun observed => ((), observed.after [.paused milliseconds])

section Calls

variable {α β : Type} {P : Except Error α → List Deed → Prop}
  {Q : Except Error β → List Deed → Prop}

/-- What a call comes to and what it does for that, whatever its transport answers. -/
def Does (call : Call (StateM Observed) α) (P : Except Error α → List Deed → Prop) : Prop :=
  ∀ observed : Observed, ∃ deeds, (call.run.run observed).2 = observed.after deeds ∧
    P (call.run.run observed).1 deeds

/-- What a call does can be said with less. -/
theorem Does.mono {P' : Except Error α → List Deed → Prop} {call : Call (StateM Observed) α}
    (does : Does call P) (h : ∀ outcome deeds, P outcome deeds → P' outcome deeds) :
    Does call P' := by
  intro observed
  obtain ⟨deeds, hAfter, hNow⟩ := does observed
  exact ⟨deeds, hAfter, h _ _ hNow⟩

/-- To return is to do nothing. -/
theorem does_pure (result : α) (h : P (.ok result) []) : Does (pure result) P :=
  fun observed => ⟨[], observed.after_nil.symm, h⟩

/-- To fail is to do nothing. -/
theorem does_throw (error : Error) (h : P (.error error) []) :
    Does (throw error : Call (StateM Observed) α) P :=
  fun observed => ⟨[], observed.after_nil.symm, h⟩

/-- A call that is followed by another one does what both do, or fails with what the first did. -/
theorem Does.bind {call : Call (StateM Observed) α} {rest : α → Call (StateM Observed) β}
    (first : Does call P) (failed : ∀ error deeds, P (.error error) deeds → Q (.error error) deeds)
    (second : ∀ result deeds, P (.ok result) deeds →
      Does (rest result) fun outcome more => Q outcome (deeds ++ more)) :
    Does (call >>= rest) Q := by
  intro observed
  obtain ⟨deeds, hAfter, hFirst⟩ := first observed
  rw [ExceptT.run_bind, StateT.run_bind]
  rcases hRun : call.run.run observed with ⟨outcome, next⟩
  rw [hRun] at hAfter hFirst
  subst hAfter
  cases outcome with
  | error error => exact ⟨deeds, rfl, failed error deeds hFirst⟩
  | ok result =>
      obtain ⟨more, hMore, hSecond⟩ := second result deeds hFirst (observed.after deeds)
      exact ⟨deeds ++ more, hMore.trans (observed.after_after deeds more), hSecond⟩

/-- To transmit ends as the transport says. -/
theorem does_transmit (packet : List UInt8) :
    Does (Call.transmit packet) fun outcome deeds => deeds = [.transmitted packet outcome] :=
  fun _ => ⟨_, rfl, rfl⟩

/-- To receive ends as the transport says, and never gives more than was asked for. -/
theorem does_receive (size : Nat) :
    Does (Call.receive size) fun outcome deeds =>
      deeds = [.received outcome] ∧ ∀ bytes, outcome = .ok bytes → bytes.length ≤ size := by
  intro observed
  have hRun : (Call.receive size : Call (StateM Observed) (List UInt8)).run.run observed =
      ((·.take size) <$> (·.take size) <$> observed.receives observed.deeds size,
        observed.after [.received ((·.take size) <$> observed.receives observed.deeds size)]) := by
    rw [Call.receive, ExceptT.run_map]
    rfl
  rw [hRun]
  cases observed.receives observed.deeds size with
  | error error => exact ⟨_, rfl, rfl, nofun⟩
  | ok bytes =>
      have hTake : (bytes.take size).take size = bytes.take size := by
        rw [List.take_take, Nat.min_self]
      refine ⟨_, rfl, ?_, ?_⟩
      · exact congrArg (fun taken => [Deed.received (.ok taken)]) hTake.symm
      · intro taken hTaken
        cases hTaken
        exact List.length_take_le ..

theorem does_pause (milliseconds : Nat) :
    Does (Call.pause milliseconds) fun outcome deeds =>
      outcome = .ok () ∧ deeds = [.paused milliseconds] :=
  fun _ => ⟨_, rfl, rfl, rfl⟩

end Calls

end Multidrop.Host
