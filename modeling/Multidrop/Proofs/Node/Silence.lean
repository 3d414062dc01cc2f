import Multidrop.Line.Recorder
import Multidrop.Proofs.Node.Interleaving

/-!
Silences that come while the lock is held, told from the outside. A node notes them and accounts for
them whenever somebody comes to its framer next, perhaps long after the lock was given back. It
might as well have done so at the moment the lock was given back: there is a framer without flags
that does, and nobody can tell the two apart.
-/

namespace Multidrop

namespace Line

/-- Stopping the timer is not an event of the line. -/
theorem eventsFrom_append_stopTimer (count : Nat) (calls : List Call) :
    eventsFrom count (calls ++ [.stopTimer]) = eventsFrom count calls := by
  induction count, calls using eventsFrom.induct with
  | case1 count => rfl
  | case2 count bytes rest ih => exact ih
  | case3 count rest ih => rw [List.cons_append, eventsFrom, eventsFrom, ih]
  | case4 count rest ih => rw [List.cons_append, eventsFrom, eventsFrom, ih]
  | case5 count rest ih => rw [List.cons_append, eventsFrom, eventsFrom, ih]
  | case6 count rest ih => exact ih
  | case7 count rest ih => exact ih

/-- Nobody who listens notices that a timer stops. -/
@[simp] theorem Trace.events_push_stopTimer (trace : Trace) :
    Trace.events (trace.push .stopTimer) = trace.events := by
  rw [events, Array.toList_push, eventsFrom_append_stopTimer, events]

end Line

/-- What is seen of a node: what it said, what it did with the line, and what its main loop finds
when it takes the lock. -/
structure View where
  written : List UInt8
  events : List Line.Event
  position : Nat
  address : UInt8
  deriving DecidableEq

namespace Link

variable {C : Type}

def view (link : Link C) : View :=
  ⟨link.trace.written, link.trace.events, link.position, link.address⟩

/-- Nor is a timeout. -/
theorem events_timeout (link : Link C) : link.timeout.trace.events = link.trace.events := by
  unfold timeout
  split
  · rfl
  · exact Line.Trace.events_push_stopTimer link.trace

end Link

/-- A framer that is lent to the main loop for a time. Bytes that come meanwhile are dropped, and
however often the line is silent meanwhile, it is silent once when the framer is given back. -/
structure Ideal (C : Type) where
  link : Link C
  held : Bool
  /-- The line was silent while the framer was lent. -/
  missed : Bool

namespace Ideal

variable {C : Type}

def start (commands : C) (address : UInt8) : Ideal C :=
  ⟨.idle commands address, false, false⟩

def unlock (ideal : Ideal C) : Ideal C :=
  ⟨if ideal.missed then ideal.link.timeout else ideal.link, false, false⟩

/-- The request executed by an event. -/
def executed (ideal : Ideal C) : Node.Event → List (Execution C)
  | .poll => if ideal.held then [] else ideal.link.due?.toList
  | _ => []

variable [CommandSet C]

def step (ideal : Ideal C) : Node.Event → Ideal C
  | .byte byte => if ideal.held then ideal else { ideal with link := ideal.link.receive byte }
  | .silence =>
    if ideal.held then { ideal with missed := true }
    else { ideal with link := ideal.link.timeout }
  | .poll => if ideal.held then ideal else { ideal with link := ideal.link.execute.2 }
  | .lock => { ideal with held := true }
  | .unlock => ideal.unlock

def run (ideal : Ideal C) (events : List Node.Event) : Ideal C :=
  events.foldl step ideal

/-- The requests executed by several events, in order. -/
def executions (ideal : Ideal C) : List Node.Event → List (Execution C)
  | [] => []
  | event :: rest => ideal.executed event ++ (ideal.step event).executions rest

end Ideal

namespace Node

variable {C : Type}

/-- What is seen of a node. -/
def view (node : Node C) : View :=
  ⟨node.link.value.trace.written, node.link.value.trace.events, node.position, node.address⟩

/-- The node as if it had accounted for all silences in time. -/
def ideal (node : Node C) : Ideal C :=
  if node.link.held then ⟨node.link.value, true, node.expired⟩
  else ⟨node.catchUp.link.value, false, false⟩

variable {node : Node C}

/-- While the link is held the ideal node has a silence to make up for as well. -/
theorem ideal_of_held (h : node.link.held = true) :
    node.ideal = ⟨node.link.value, true, node.expired⟩ := by
  rw [ideal, h, if_pos rfl]

/-- Once it is free, the ideal node is the one that has caught up. -/
theorem ideal_of_free (h : node.link.held = false) :
    node.ideal = ⟨node.catchUp.link.value, false, false⟩ := by
  rw [ideal, h, if_neg Bool.false_ne_true]

/-- A silence that was missed and not accounted for yet cannot be seen. -/
theorem view_eq (node : Node C) : node.view = node.ideal.link.view := by
  cases hHeld : node.link.held with
  | true => rw [view, position, look, lock_of_held hHeld, ideal_of_held hHeld]; rfl
  | false =>
      have kept := kept_catchUp node
      have hEvents : node.catchUp.link.value.trace.events = node.link.value.trace.events := by
        rw [link_catchUp]
        split
        · exact node.link.value.events_timeout
        · rfl
      rw [view, position, look, lock_of_unlocked hHeld, ideal_of_free hHeld, Link.view, hEvents,
        kept.written, kept.address]
      rfl

/-- An event executes the same with and without the silences that were missed. -/
theorem executed_ideal (flagged : node.Flagged) (event : Event) :
    node.executed event = node.ideal.executed event := by
  cases event with
  | poll =>
      cases hHeld : node.link.held with
      | true =>
          rw [executed, due?_of_held hHeld, ideal_of_held hHeld]
          rfl
      | false =>
          rw [executed, due?_of_unlocked hHeld, ideal_of_free hHeld]
          cases hReady : node.ready with
          | true => rfl
          | false =>
              have hDue := Link.due?_eq_none ((request?_catchUp node).trans (flagged.eq_none hReady))
              exact congrArg Option.toList hDue.symm
  | byte byte => rfl
  | silence => rfl
  | lock => rfl
  | unlock => rfl

variable [CommandSet C]

/-- Each event does to a node what it does to the framer that accounts for silences in time. -/
theorem ideal_step (flagged : node.Flagged) (event : Event) :
    (node.step event).ideal = node.ideal.step event := by
  cases hHeld : node.link.held with
  | true =>
      rw [ideal_of_held hHeld]
      cases event with
      | byte byte =>
          rw [step, receive_of_held hHeld]
          exact ideal_of_held hHeld
      | silence =>
          rw [step, timeout_of_held hHeld]
          exact ideal_of_held hHeld
      | poll =>
          rw [step, poll_of_held hHeld]
          exact ideal_of_held hHeld
      | lock =>
          rw [step, lock_of_held hHeld]
          exact ideal_of_held hHeld
      | unlock =>
          have hFree : node.unlock.link.held = false := rfl
          rw [step, ideal_of_free hFree, link_catchUp]
          rfl
  | false =>
      rw [ideal_of_free hHeld]
      cases event with
      | byte byte =>
          rw [step, receive_of_unlocked hHeld]
          rfl
      | silence =>
          have hFree := (held_timeout node).trans hHeld
          rw [step, ideal_of_free hFree, link_catchUp_timeout hHeld]
          rfl
      | lock =>
          rw [step, lock_of_unlocked hHeld]
          rfl
      | unlock =>
          have hFree : node.unlock.link.held = false := rfl
          rw [step, ideal_of_free hFree, link_catchUp, link_catchUp]
          rfl
      | poll =>
          rw [step, poll_of_unlocked hHeld]
          cases hReady : node.ready with
          | true => rfl
          | false =>
              have hDue := Link.due?_eq_none ((request?_catchUp node).trans (flagged.eq_none hReady))
              have hExecute : node.catchUp.link.value.execute.2 = node.catchUp.link.value := by
                rw [Link.execute_eq, hDue]
              change _ = (⟨node.catchUp.link.value.execute.2, false, false⟩ : Ideal C)
              rw [hExecute]
              rfl

/-- Any number of events does to a node what it does to the framer that accounts for silences in
time. -/
theorem ideal_run (flagged : node.Flagged) (events : List Event) :
    (node.run events).ideal = node.ideal.run events ∧
      node.executions events = node.ideal.executions events := by
  induction events generalizing node with
  | nil => exact ⟨rfl, rfl⟩
  | cons event rest ih =>
      obtain ⟨hRun, hExecutions⟩ := ih (flagged_step flagged event)
      rw [ideal_step flagged event] at hRun hExecutions
      refine ⟨hRun, ?_⟩
      rw [executions, Ideal.executions, executed_ideal flagged event, hExecutions]

/-- Nodes between which only silences stand that are not accounted for yet do and show the same from
then on. -/
theorem alike {other : Node C} (flagged : node.Flagged) (flaggedOther : other.Flagged)
    (h : node.ideal = other.ideal) (events : List Event) :
    node.executions events = other.executions events ∧
      (node.run events).view = (other.run events).view := by
  obtain ⟨hRun, hExecutions⟩ := ideal_run flagged events
  obtain ⟨hRunOther, hExecutionsOther⟩ := ideal_run flaggedOther events
  rw [← h] at hRunOther hExecutionsOther
  exact ⟨hExecutions.trans hExecutionsOther.symm,
    by rw [view_eq, view_eq, hRun, hRunOther]⟩

/-- A poll that finds no request, or to take the lock and give it back at once, is nothing. -/
theorem ideal_idle (flagged : node.Flagged) (hFree : node.link.held = false) {idle : List Event}
    (h : idle = [.poll] ∧ node.waiting = none ∨ idle = [.lock, .unlock]) :
    (node.run idle).ideal = node.ideal ∧ node.executions idle = [] := by
  obtain ⟨hRun, hExecutions⟩ := ideal_run flagged idle
  rw [hRun, hExecutions, ideal_of_free hFree]
  obtain ⟨rfl, hWaiting⟩ | rfl := h
  · have hDue := Link.due?_eq_none ((request?_catchUp node).trans hWaiting)
    have hExecute : node.catchUp.link.value.execute.2 = node.catchUp.link.value := by
      rw [Link.execute_eq, hDue]
    constructor
    · change (⟨node.catchUp.link.value.execute.2, false, false⟩ : Ideal C) = _
      rw [hExecute]
    · change node.catchUp.link.value.due?.toList ++ [] = []
      rw [hDue]
      rfl
  · exact ⟨rfl, rfl⟩

/-- What is nothing in the middle of a run may be left out of it. -/
theorem idle_between (flagged : node.Flagged) (events : List Event) {idle : List Event}
    (hFree : (node.run events).link.held = false)
    (h : idle = [.poll] ∧ (node.run events).waiting = none ∨ idle = [.lock, .unlock])
    (more : List Event) :
    node.executions (events ++ idle ++ more) = node.executions (events ++ more) ∧
      (node.run (events ++ idle ++ more)).view = (node.run (events ++ more)).view := by
  have flaggedBefore := flagged_run flagged events
  obtain ⟨hSame, hNothing⟩ := ideal_idle flaggedBefore hFree h
  obtain ⟨hExecutions, hView⟩ := alike (flagged_run flaggedBefore idle) flaggedBefore hSame more
  constructor
  · calc node.executions (events ++ idle ++ more)
        = node.executions events ++ ((node.run events).executions idle ++
            ((node.run events).run idle).executions more) := by
          rw [List.append_assoc, executions_append, executions_append]
      _ = node.executions events ++ (node.run events).executions more := by
          rw [hNothing, hExecutions, List.nil_append]
      _ = node.executions (events ++ more) := (executions_append ..).symm
  · rw [run_append, run_append, run_append]
    exact hView

/-- The poll of a node says what the execution of the framer says that accounts for silences in
time. -/
theorem poll_ideal (flagged : node.Flagged) (hFree : node.link.held = false) :
    node.poll.1 = node.ideal.link.execute.1 := by
  rw [poll_of_unlocked hFree, ideal_of_free hFree]
  cases hReady : node.ready with
  | true => rfl
  | false =>
      have hDue := Link.due?_eq_none ((request?_catchUp node).trans (flagged.eq_none hReady))
      rw [Link.execute_eq, hDue]
      rfl

/-- To miss silences and account for them later is as good as to account for them once, when the
lock is given back. Whatever calls are made on a node, in any order, and whatever interrupts come in
the middle of them, the same requests are executed on the same line, and the same is seen on the
line and through the lock. To poll while no request waits changes nothing of that, now or later, and
to ask for the address does not either. -/
theorem missed_silences (commands : C) (address : UInt8) (events : List Event) :
    let start := Node.start commands address
    let node := start.run events
    let ideal := (Ideal.start commands address).run events
    (start.executions events = (Ideal.start commands address).executions events ∧
        node.view = ideal.link.view ∧ node.link.held = ideal.held ∧
        (node.link.held = true → node.link.value = ideal.link ∧ node.expired = ideal.missed) ∧
        (node.link.held = false → node.poll.1 = ideal.link.execute.1)) ∧
      (∀ idle : List Event, node.link.held = false →
        idle = [.poll] ∧ node.waiting = none ∨ idle = [.lock, .unlock] →
        ∀ more : List Event,
          start.executions (events ++ idle ++ more) = start.executions (events ++ more) ∧
            (start.run (events ++ idle ++ more)).view = (start.run (events ++ more)).view) ∧
      ∀ moves : List Move, ∃ calls : List Event,
        (Interleaved.start commands address).executions moves =
            (Ideal.start commands address).executions calls ∧
          (((Interleaved.start commands address).run moves).stage = .away →
            ((Interleaved.start commands address).run moves).node.view =
              ((Ideal.start commands address).run calls).link.view) := by
  intro start node ideal
  have hStart : start.Flagged := flagged_start commands address
  have flagged : node.Flagged := flagged_run hStart events
  obtain ⟨hRun, hExecutions⟩ := ideal_run hStart events
  have hIdeal : node.ideal = ideal := hRun
  refine ⟨⟨hExecutions, ?_, ?_, ?_, ?_⟩, ?_, ?_⟩
  · rw [view_eq, hIdeal]
  · cases hHeld : node.link.held with
    | true => rw [← hIdeal, ideal_of_held hHeld]
    | false => rw [← hIdeal, ideal_of_free hHeld]
  · intro hHeld
    rw [← hIdeal, ideal_of_held hHeld]
    exact ⟨rfl, rfl⟩
  · intro hFree
    rw [poll_ideal flagged hFree, hIdeal]
  · exact fun idle hFree hIdle more => idle_between hStart events hFree hIdle more
  · intro moves
    obtain ⟨calls, hSame, hNode⟩ := Interleaved.exists_run commands address moves
    obtain ⟨hRunCalls, hExecutionsCalls⟩ := ideal_run hStart calls
    refine ⟨calls, hSame.trans hExecutionsCalls, fun hAway => ?_⟩
    rw [← hNode hAway, view_eq, hRunCalls]
    rfl

/-- Two silences end a packet while the lock is held. They count as one, as soon as the lock is
given back, and whether somebody asks for the address before the ping that follows makes no
difference. -/
theorem missed_silences_ping :
    let commands : Scripted :=
      ⟨⟨#[], [], [], [], #[]⟩, {}, [(.ping, .execute)], [(.ping, [.send [7]])], #[]⟩
    let events : List Event :=
      [5, 0].map .byte ++ [.lock, .byte 9, .silence, .silence]
    let more : List Event := [5, 0, 5, 1].map .byte ++ [.poll]
    let start := Node.start commands 5
    let ideal := (Ideal.start commands 5).run events
    ((start.run events).link.value = ideal.link ∧ (start.run events).link.value.position = 2) ∧
      (start.run (events ++ [.unlock])).view.position = 0 ∧
      (start.executions (events ++ [.unlock] ++ [.lock, .unlock] ++ more)).map
        Execution.requested = [(⟨⟨5, 5, .ping⟩, .empty⟩, 4)] := by
  intro commands events more start ideal
  obtain ⟨⟨_, _, _, hHeld, _⟩, _, _⟩ := missed_silences commands 5 events
  obtain ⟨⟨_, hView, _, _, _⟩, hIdle, _⟩ := missed_silences commands 5 (events ++ [.unlock])
  have hSame := (hIdle [.lock, .unlock] (by decide) (.inr rfl) more).1
  refine ⟨⟨(hHeld (by decide)).1, by decide⟩, ?_, ?_⟩
  · rw [hView]
    decide
  · rw [hSame]
    decide

end Node

end Multidrop
