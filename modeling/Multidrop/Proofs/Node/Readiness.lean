import Multidrop.Proofs.Node.Call
import Multidrop.Proofs.Node.Hearing

/-!
Requests between the byte that makes them ready and the poll that executes them. In between nothing
changes them, and no order of interrupts and calls loses or repeats one: what was executed and what
still waits is together what became ready.
-/

namespace Multidrop

/-- The request that is executed, and how many bytes of its packet went by. -/
def Execution.requested {C : Type} (execution : Execution C) : Request × Nat :=
  (execution.request, execution.session.position)

namespace Node

variable {C : Type}

/-- Whoever makes a request ready says so. -/
def Flagged (node : Node C) : Prop :=
  node.waiting ≠ none → node.ready = true

/-- The flag is raised for nothing but a request that waits. -/
def Prompt (node : Node C) : Prop :=
  node.ready = true → node.waiting ≠ none

/-- When a node starts, no request waits. -/
theorem flagged_start (commands : C) (address : UInt8) : (start commands address).Flagged :=
  fun h => absurd rfl h

/-- When a node starts, the flag is down. -/
theorem prompt_start (commands : C) (address : UInt8) : (start commands address).Prompt :=
  nofun

/-- Where the flag is down no request waits. -/
theorem Flagged.eq_none {node : Node C} (flagged : node.Flagged) (h : node.ready = false) :
    node.waiting = none := by
  by_cases hWaiting : node.waiting = none
  · exact hWaiting
  · rw [flagged hWaiting] at h
    cases h

theorem waiting_timeout (node : Node C) : node.timeout.waiting = node.waiting := by
  cases hHeld : node.link.held with
  | true => rw [timeout_of_held hHeld]; rfl
  | false =>
      rw [timeout_of_unlocked hHeld]
      exact Link.request?_timeout node.link.value

theorem waiting_lock (node : Node C) : node.lock.waiting = node.waiting := by
  cases hHeld : node.link.held with
  | true => rw [lock_of_held hHeld]
  | false =>
      rw [lock_of_unlocked hHeld]
      exact request?_catchUp node

theorem ready_timeout (node : Node C) : node.timeout.ready = node.ready := by
  cases hHeld : node.link.held with
  | true => rw [timeout_of_held hHeld]
  | false => rw [timeout_of_unlocked hHeld]

theorem ready_lock (node : Node C) : node.lock.ready = node.ready := by
  cases hHeld : node.link.held with
  | true => rw [lock_of_held hHeld]
  | false => rw [lock_of_unlocked hHeld]

/-- A silence that was missed is nothing to a request that waits. -/
theorem link_catchUp_of_waiting {node : Node C} (h : node.waiting ≠ none) :
    node.catchUp.link.value = node.link.value := by
  have hReady : node.link.value.packet.isReady = true := by
    rw [Packet.isReady_eq, Option.isSome_iff_ne_none]
    exact h
  rw [link_catchUp, Link.timeout, hReady, if_pos rfl, ite_self]

/-- A request that waits is executed with the commands and the line as they are. -/
theorem due?_eq_some {node : Node C} (hFree : node.link.held = false) (flagged : node.Flagged)
    {request : Request} {position : Nat} (h : node.waiting = some (request, position)) :
    node.due? = some ⟨node.commands, request,
      ⟨request.header, position, node.address, false, node.link.value.trace⟩⟩ := by
  have hWaiting : node.waiting ≠ none := by rw [h]; exact Option.some_ne_none _
  have hRequest : node.link.value.packet.request? = some (request, position) := h
  rw [due?_of_unlocked hFree, flagged hWaiting, if_pos rfl, link_catchUp_of_waiting hWaiting,
    Link.due?_eq_some hRequest]
  rfl

variable [CommandSet C] {node : Node C}

/-- A byte does not change a request that waits. -/
theorem waiting_receive (h : node.waiting ≠ none) (byte : UInt8) :
    (node.receive byte).waiting = node.waiting := by
  cases hHeld : node.link.held with
  | true => rw [receive_of_held hHeld]
  | false =>
      have hCaught := request?_catchUp node
      rw [receive_of_unlocked hHeld, waiting, Link.receive_of_request (by rwa [hCaught]), hCaught]

/-- A request that waits is executed by the next poll that can take the lock. -/
theorem due?_of_waiting (hFree : node.link.held = false) (flagged : node.Flagged)
    {request : Request} {position : Nat} (h : node.waiting = some (request, position)) :
    ∃ execution : Execution C, node.due? = some execution ∧
      execution.requested = (request, position) ∧ execution.session.header = request.header ∧
      node.poll = (some request.header.command, ⟨⟨execution.link, false⟩, false, false⟩) := by
  have hDue := due?_eq_some hFree flagged h
  have hReady : node.ready = true := flagged (by rw [h]; exact Option.some_ne_none _)
  refine ⟨_, hDue, rfl, rfl, ?_⟩
  rw [due?_of_unlocked hFree, hReady, if_pos rfl] at hDue
  rw [poll_of_unlocked hFree, hReady, if_pos rfl, Link.execute_eq, hDue]

/-- Where no request waits, a poll does nothing but to account for a silence that was missed. -/
theorem poll_of_not_waiting (hFree : node.link.held = false) (h : node.waiting = none) :
    node.due? = none ∧ node.poll = (none, { node.catchUp with ready := false }) := by
  have hCaught : node.catchUp.link.value.packet.request? = none := (request?_catchUp node).trans h
  have hDue := Link.due?_eq_none hCaught
  constructor
  · rw [due?_of_unlocked hFree, hDue, ite_self]
  · rw [poll_of_unlocked hFree, Link.execute_eq, hDue, catchUp_eq, hFree]
    cases node.ready with
    | true => rfl
    | false => rfl

/-- The request that an event makes ready, and how many bytes of its packet went by then. -/
def readies (node : Node C) (event : Event) : Option (Request × Nat) :=
  node.waiting.elim (node.step event).waiting fun _ => none

/-- The requests that become ready during several events, in order. -/
def readied (node : Node C) : List Event → List (Request × Nat)
  | [] => []
  | event :: rest => (node.readies event).toList ++ (node.step event).readied rest

/-- What becomes ready in a run is what becomes ready in its two parts. -/
theorem readied_append (node : Node C) (first second : List Event) :
    node.readied (first ++ second) = node.readied first ++ (node.run first).readied second := by
  induction first generalizing node with
  | nil => rfl
  | cons event rest ih =>
      rw [List.cons_append, readied, readied, ih, List.append_assoc]
      rfl

/-- A request that waits goes on waiting, whatever happens, until it is executed. -/
theorem waiting_step (h : node.waiting ≠ none) {event : Event}
    (hOther : event = .poll → node.link.held = true) :
    (node.step event).waiting = node.waiting ∧ node.executed event = [] := by
  cases event with
  | byte byte => exact ⟨waiting_receive h byte, rfl⟩
  | silence => exact ⟨waiting_timeout node, rfl⟩
  | lock => exact ⟨waiting_lock node, rfl⟩
  | unlock => exact ⟨rfl, rfl⟩
  | poll =>
      have hHeld := hOther rfl
      refine ⟨?_, ?_⟩
      · rw [step, poll_of_held hHeld]
      · rw [executed, due?_of_held hHeld]
        rfl

/-- Interrupts that come before the poll change neither the request nor what was counted of its
packet. -/
theorem waiting_run (h : node.waiting ≠ none) {events : List Event} (hNone : .poll ∉ events) :
    (node.run events).waiting = node.waiting := by
  induction events generalizing node with
  | nil => rfl
  | cons event rest ih =>
      rw [List.mem_cons, not_or] at hNone
      obtain ⟨hStep, _⟩ : (node.step event).waiting = node.waiting ∧ node.executed event = [] :=
        waiting_step h fun hPoll => absurd hPoll.symm hNone.1
      have hRest : ((node.step event).run rest).waiting = (node.step event).waiting :=
        ih (by rwa [hStep]) hNone.2
      exact hRest.trans hStep

/-- No event lets a request wait while the flag is down. -/
theorem flagged_step (flagged : node.Flagged) (event : Event) : (node.step event).Flagged := by
  cases event with
  | silence =>
      rw [Flagged, step, waiting_timeout, ready_timeout]
      exact flagged
  | lock =>
      rw [Flagged, step, waiting_lock, ready_lock]
      exact flagged
  | unlock => exact flagged
  | byte byte =>
      cases hHeld : node.link.held with
      | true =>
          rw [step, receive_of_held hHeld]
          exact flagged
      | false =>
          rw [step, receive_of_unlocked hHeld]
          intro hWaiting
          dsimp only [waiting] at hWaiting ⊢
          rw [← Option.isSome_iff_ne_none, ← Packet.isReady_eq] at hWaiting
          by_cases hBefore : node.waiting = none
          · rw [Packet.isReady_eq, request?_catchUp, hBefore, hWaiting]
            simp
          · rw [flagged hBefore, Bool.true_or]
  | poll =>
      cases hHeld : node.link.held with
      | true =>
          rw [step, poll_of_held hHeld]
          exact flagged
      | false =>
          cases hWaiting : node.waiting with
          | none =>
              rw [step, (poll_of_not_waiting hHeld hWaiting).2]
              intro hAfter
              exact absurd ((request?_catchUp node).trans hWaiting) hAfter
          | some found =>
              obtain ⟨execution, _, _, _, hPoll⟩ := due?_of_waiting hHeld flagged hWaiting
              rw [step, hPoll]
              exact fun hAfter => absurd rfl hAfter

/-- So does a run. -/
theorem flagged_run (flagged : node.Flagged) (events : List Event) : (node.run events).Flagged := by
  induction events generalizing node with
  | nil => exact flagged
  | cons event rest ih => exact ih (flagged_step flagged event)

/-- No event raises the flag for nothing. -/
theorem prompt_step (prompt : node.Prompt) (event : Event) : (node.step event).Prompt := by
  cases event with
  | silence =>
      rw [Prompt, step, waiting_timeout, ready_timeout]
      exact prompt
  | lock =>
      rw [Prompt, step, waiting_lock, ready_lock]
      exact prompt
  | unlock => exact prompt
  | byte byte =>
      cases hHeld : node.link.held with
      | true =>
          rw [step, receive_of_held hHeld]
          exact prompt
      | false =>
          intro hReady
          rw [step] at hReady ⊢
          by_cases hBefore : node.waiting = none
          · have hRaised : node.ready = false := by
              cases hOld : node.ready with
              | false => rfl
              | true => exact absurd hBefore (prompt hOld)
            rw [receive_of_unlocked hHeld] at hReady ⊢
            rw [hRaised, Bool.false_or, Bool.and_eq_true, Packet.isReady_eq] at hReady
            exact Option.isSome_iff_ne_none.mp (Packet.isReady_eq _ ▸ hReady.2)
          · rwa [waiting_receive hBefore]
  | poll =>
      cases hHeld : node.link.held with
      | true =>
          rw [step, poll_of_held hHeld]
          exact prompt
      | false =>
          intro hReady
          rw [step, poll_of_unlocked hHeld] at hReady
          cases hOld : node.ready with
          | true =>
              rw [hOld, if_pos rfl] at hReady
              cases hReady
          | false =>
              rw [hOld, if_neg Bool.false_ne_true] at hReady
              cases hReady

/-- Nor does a run. -/
theorem prompt_run (prompt : node.Prompt) (events : List Event) : (node.run events).Prompt := by
  induction events generalizing node with
  | nil => exact prompt
  | cons event rest ih => exact ih (prompt_step prompt event)

/-- Each event keeps the account: what waited and what became ready with it is what was executed by
it and what waits then. -/
theorem account_step (flagged : node.Flagged) (event : Event) :
    node.waiting.toList ++ (node.readies event).toList =
      (node.executed event).map Execution.requested ++ (node.step event).waiting.toList := by
  cases hWaiting : node.waiting with
  | none =>
      have hExecuted : node.executed event = [] := by
        cases event with
        | poll =>
            cases hHeld : node.link.held with
            | true =>
                rw [executed, due?_of_held hHeld]
                rfl
            | false =>
                rw [executed, (poll_of_not_waiting hHeld hWaiting).1]
                rfl
        | byte byte => rfl
        | silence => rfl
        | lock => rfl
        | unlock => rfl
      rw [hExecuted, readies, hWaiting]
      rfl
  | some found =>
      have hSome : node.waiting ≠ none := by
        rw [hWaiting]
        exact Option.some_ne_none found
      rw [readies, hWaiting]
      by_cases hExecutes : event = .poll ∧ node.link.held = false
      · obtain ⟨rfl, hFree⟩ := hExecutes
        obtain ⟨execution, hDue, hRequested, _, hPoll⟩ := due?_of_waiting hFree flagged hWaiting
        rw [executed, hDue, step, hPoll]
        exact congrArg (fun requested => [requested]) hRequested.symm
      · have hOther : event = .poll → node.link.held = true := by
          intro hPoll
          cases hHeld : node.link.held with
          | true => rfl
          | false => exact absurd ⟨hPoll, hHeld⟩ hExecutes
        obtain ⟨hSame, hExecuted⟩ := waiting_step hSome hOther
        rw [hExecuted, hSame, hWaiting]
        rfl

/-- The account is kept over any number of events. -/
theorem account_run (flagged : node.Flagged) (events : List Event) :
    node.waiting.toList ++ node.readied events =
      (node.executions events).map Execution.requested ++ (node.run events).waiting.toList := by
  induction events generalizing node with
  | nil =>
      rw [readied, executions, List.append_nil]
      rfl
  | cons event rest ih =>
      have hStep := account_step flagged event
      have hRest := ih (flagged_step flagged event)
      calc node.waiting.toList ++ node.readied (event :: rest)
          = (node.waiting.toList ++ (node.readies event).toList) ++
              (node.step event).readied rest := by rw [readied, List.append_assoc]
        _ = (node.executed event).map Execution.requested ++
              ((node.step event).waiting.toList ++ (node.step event).readied rest) := by
            rw [hStep, List.append_assoc]
        _ = (node.executions (event :: rest)).map Execution.requested ++
              (node.run (event :: rest)).waiting.toList := by
            rw [hRest, executions, List.map_append, List.append_assoc]
            rfl

end Node

end Multidrop
