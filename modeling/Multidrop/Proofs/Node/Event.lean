import Multidrop.Node
import Multidrop.Proofs.Node.Session

/-!
A node over time. Whatever the interrupts and the main loop do, in any order, the command set of a
node changes only where a poll executes a request that is ready. What holds of the commands before
and after each such execution therefore holds throughout.
-/

namespace Multidrop

/-- A command set that is not changed by being asked what to do with a packet. -/
class SteadyCommandSet (C : Type) [CommandSet C] : Prop where
  accept_commands : ∀ (commands : C) (header : Header),
    (CommandSet.accept commands header).2 = commands

namespace Link

variable {C : Type}

/-- A framer that went on with its packet and did nothing else: it may have restarted or stopped the
timer of the line, but it neither took the line nor sent anything. -/
structure Kept (before after : Link C) : Prop where
  commands : after.commands = before.commands
  address : after.address = before.address
  taken : after.trace.taken = before.trace.taken
  written : after.trace.written = before.trace.written

theorem Kept.refl (link : Link C) : Kept link link :=
  ⟨rfl, rfl, rfl, rfl⟩

theorem Kept.trans {first second third : Link C} (left : Kept first second)
    (right : Kept second third) : Kept first third :=
  ⟨right.commands.trans left.commands, right.address.trans left.address,
    right.taken.trans left.taken, right.written.trans left.written⟩

theorem kept_packet (link : Link C) (packet : Packet) : Kept link { link with packet } :=
  ⟨rfl, rfl, rfl, rfl⟩

theorem kept_restartTimer (link : Link C) : Kept link (link.call .restartTimer) :=
  ⟨rfl, rfl, by simp [call, Line.Call.taken], by simp [call, Line.Call.written]⟩

theorem kept_stopTimer (link : Link C) : Kept link (link.call .stopTimer) :=
  ⟨rfl, rfl, by simp [call, Line.Call.taken], by simp [call, Line.Call.written]⟩

theorem kept_endPacket (link : Link C) : Kept link link.endPacket :=
  (kept_packet link .idle).trans (kept_stopTimer _)

/-- A timeout keeps the commands, the address and what was said. -/
theorem kept_timeout (link : Link C) : Kept link link.timeout := by
  unfold timeout
  split
  · exact .refl link
  · exact kept_endPacket link

/-- So does ending a packet that is over. -/
theorem kept_settle (link : Link C) : Kept link link.settle := by
  unfold settle
  split
  · exact kept_stopTimer link
  · split
    · exact kept_endPacket link
    · exact .refl link

variable [CommandSet C] [SteadyCommandSet C]

theorem kept_openPacket (link : Link C) (header : Header) : Kept link (link.openPacket header) := by
  unfold openPacket
  split
  case isTrue =>
      have hSteady := SteadyCommandSet.accept_commands link.commands header
      split
      all_goals
        next hAccept =>
          rw [hAccept] at hSteady
          exact ⟨hSteady, rfl, rfl, rfl⟩
  case isFalse => exact kept_packet link _

theorem kept_count (link : Link C) (byte : UInt8) : Kept link (link.count byte) := by
  unfold count
  split
  · dsimp only
    split
    · exact kept_packet link _
    · exact kept_openPacket link _
  · exact kept_packet link _
  · split <;> exact kept_packet link _
  · exact .refl link

/-- So does a byte. -/
theorem kept_receive (link : Link C) (byte : UInt8) : Kept link (link.receive byte) := by
  unfold receive
  split
  · exact .refl link
  · exact ((kept_restartTimer link).trans (kept_count _ byte)).trans (kept_settle _)

end Link

/-- A request as it is executed. -/
structure Execution (C : Type) where
  commands : C
  request : Request
  session : Session

namespace Execution

variable {C : Type} [CommandSet C]

def actions (execution : Execution C) : List Action :=
  (CommandSet.execute execution.commands execution.request execution.session).1

def after (execution : Execution C) : C :=
  (CommandSet.execute execution.commands execution.request execution.session).2

def link (execution : Execution C) : Link C :=
  let session := execution.session.run execution.actions
  ⟨execution.after, session.address, .idle, session.close⟩

end Execution

namespace Link

variable {C : Type}

/-- The request that is ready, as it would be executed. -/
def due? (link : Link C) : Option (Execution C) :=
  match link with
  | ⟨commands, address, .ready request position, trace⟩ =>
    some ⟨commands, request, ⟨request.header, position, address, false, trace⟩⟩
  | _ => none

/-- Executing carries out the request that is due, if there is one. -/
theorem execute_eq [CommandSet C] (link : Link C) :
    link.execute = match link.due? with
      | some execution => (some execution.request.header.command, execution.link)
      | none => (none, link) := by
  obtain ⟨commands, address, packet, trace⟩ := link
  cases packet <;> rfl

/-- A request that is executed finds the commands and the line as they are. -/
theorem session_of_due {link : Link C} {execution : Execution C} (h : link.due? = some execution) :
    execution.commands = link.commands ∧ execution.session.trace = link.trace ∧
      execution.session.transmitting = false := by
  obtain ⟨commands, address, packet, trace⟩ := link
  cases packet with
  | ready request position =>
      cases h
      exact ⟨rfl, rfl, rfl⟩
  | opening bytes => cases h
  | passing header position collector => cases h

end Link

namespace Node

/-- What can happen to a node. -/
inductive Event where
  | byte (byte : UInt8)
  | silence
  | poll
  | lock
  | unlock
  deriving DecidableEq

variable {C : Type}

def commands (node : Node C) : C :=
  node.link.value.commands

/-- The request that a poll would execute now. -/
def due? (node : Node C) : Option (Execution C) :=
  if node.link.held then none
  else
    match node.catchUp with
    | ⟨⟨⟨commands, address, .ready request position, trace⟩, _⟩, true, _⟩ =>
      some ⟨commands, request, ⟨request.header, position, address, false, trace⟩⟩
    | _ => none

/-- The request that a poll would execute, if the lock is free and the request was flagged. -/
theorem due?_of_unlocked {node : Node C} (h : node.link.held = false) :
    node.due? = if node.ready then node.catchUp.link.value.due? else none := by
  rw [due?, h, if_neg Bool.false_ne_true, catchUp_eq]
  generalize node.catchUp.link.value = caught
  obtain ⟨commands, address, packet, trace⟩ := caught
  cases node.ready with
  | false => cases packet <;> rfl
  | true => cases packet <;> rfl

/-- While the link is held no execution is due. -/
theorem due?_of_held {node : Node C} (h : node.link.held = true) : node.due? = none := by
  rw [due?, h, if_pos rfl]

theorem kept_catchUp (node : Node C) : Link.Kept node.link.value node.catchUp.link.value := by
  unfold catchUp
  split
  · exact Link.kept_timeout node.link.value
  · exact .refl _

theorem kept_timeout (node : Node C) : Link.Kept node.link.value node.timeout.link.value := by
  cases hHeld : node.link.held with
  | true =>
      rw [timeout_of_held hHeld]
      exact .refl _
  | false =>
      rw [timeout_of_unlocked hHeld]
      exact Link.kept_timeout node.link.value

theorem kept_lock (node : Node C) : Link.Kept node.link.value node.lock.link.value := by
  cases hHeld : node.link.held with
  | true =>
      rw [lock_of_held hHeld]
      exact .refl _
  | false =>
      rw [lock_of_unlocked hHeld]
      exact kept_catchUp node

variable [CommandSet C]

theorem kept_receive [SteadyCommandSet C] (node : Node C) (byte : UInt8) :
    Link.Kept node.link.value (node.receive byte).link.value := by
  cases hHeld : node.link.held with
  | true =>
      rw [receive_of_held hHeld]
      exact .refl _
  | false =>
      rw [receive_of_unlocked hHeld]
      exact (kept_catchUp node).trans (Link.kept_receive _ byte)

/-- A poll that finds nothing to execute changes nothing. -/
theorem poll_of_not_due {node : Node C} (h : node.due? = none) :
    node.poll.1 = none ∧ Link.Kept node.link.value node.poll.2.link.value := by
  have kept := kept_catchUp node
  cases hHeld : node.link.held with
  | true =>
      rw [poll_of_held hHeld]
      exact ⟨rfl, .refl _⟩
  | false =>
      rw [due?_of_unlocked hHeld] at h
      rw [poll_of_unlocked hHeld]
      cases hReady : node.ready with
      | false => exact ⟨rfl, kept⟩
      | true =>
          rw [hReady, if_pos rfl] at h
          rw [if_pos rfl, Link.execute_eq, h]
          exact ⟨rfl, kept⟩

/-- An execution that is due is what the next poll carries out. -/
theorem poll_of_due {node : Node C} {execution : Execution C} (h : node.due? = some execution) :
    node.poll.1 = some execution.request.header.command ∧
      node.poll.2.link.value = execution.link ∧
      execution.commands = node.commands ∧
      execution.session.trace.taken = node.link.value.trace.taken ∧
      execution.session.transmitting = false := by
  have kept := kept_catchUp node
  cases hHeld : node.link.held with
  | true =>
      rw [due?_of_held hHeld] at h
      cases h
  | false =>
      rw [due?_of_unlocked hHeld] at h
      rw [poll_of_unlocked hHeld]
      cases hReady : node.ready with
      | false =>
          rw [hReady, if_neg Bool.false_ne_true] at h
          cases h
      | true =>
          rw [hReady, if_pos rfl] at h
          obtain ⟨hCommands, hTrace, hFree⟩ := Link.session_of_due h
          rw [if_pos rfl, Link.execute_eq, h]
          exact ⟨rfl, rfl, hCommands.trans kept.commands, hTrace ▸ kept.taken, hFree⟩

def step (node : Node C) : Event → Node C
  | .byte byte => node.receive byte
  | .silence => node.timeout
  | .poll => node.poll.2
  | .lock => node.lock
  | .unlock => node.unlock

/-- Several things happen to a node, in order. -/
def run (node : Node C) (events : List Event) : Node C :=
  events.foldl step node

/-- The request executed by an event. -/
def executed (node : Node C) : Event → List (Execution C)
  | .poll => node.due?.toList
  | _ => []

/-- The requests executed by several events, in order. -/
def executions (node : Node C) : List Event → List (Execution C)
  | [] => []
  | event :: rest => node.executed event ++ (node.step event).executions rest

section Steady

variable [SteadyCommandSet C]

/-- An event executes nothing and keeps the commands, or it executes one request. -/
theorem step_cases (node : Node C) (event : Event) :
    node.executed event = [] ∧ Link.Kept node.link.value (node.step event).link.value ∨
      ∃ execution, node.executed event = [execution] ∧ execution.commands = node.commands ∧
        (node.step event).link.value = execution.link ∧
        execution.session.trace.taken = node.link.value.trace.taken ∧
        execution.session.transmitting = false := by
  cases event with
  | byte byte => exact .inl ⟨rfl, kept_receive node byte⟩
  | silence => exact .inl ⟨rfl, kept_timeout node⟩
  | lock => exact .inl ⟨rfl, kept_lock node⟩
  | unlock => exact .inl ⟨rfl, .refl _⟩
  | poll =>
      cases hDue : node.due? with
      | none =>
          refine .inl ⟨?_, (poll_of_not_due hDue).2⟩
          simp [executed, hDue]
      | some execution =>
          obtain ⟨_, hLink, hCommands, hTaken, hFree⟩ := poll_of_due hDue
          refine .inr ⟨execution, ?_, hCommands, hLink, hTaken, hFree⟩
          simp [executed, hDue]

/-- What is known of the commands, given what was executed before, is known at each execution. -/
theorem known_at_execution {K : Type} {P : K → C → Prop} {update : K → Execution C → K}
    (hUpdate : ∀ known execution, P known execution.commands →
      P (update known execution) execution.after)
    {node : Node C} {events : List Event} {known : K} (hStart : P known node.commands)
    {before rest : List (Execution C)} {execution : Execution C}
    (h : node.executions events = before ++ execution :: rest) :
    P (before.foldl update known) execution.commands := by
  induction events generalizing node known before with
  | nil => simp [executions] at h
  | cons event events ih =>
      rw [executions] at h
      rcases node.step_cases event with ⟨hNone, kept⟩ | ⟨first, hOne, hFirst, hLink, _⟩
      · rw [hNone, List.nil_append] at h
        refine ih ?_ h
        rw [commands, kept.commands]
        exact hStart
      · rw [hOne, List.singleton_append] at h
        rw [← hFirst] at hStart
        cases before with
        | nil =>
            obtain ⟨rfl, _⟩ := List.cons.inj h
            exact hStart
        | cons head before =>
            obtain ⟨rfl, hRest⟩ := List.cons.inj h
            have hNext : P (update known first) (node.step event).commands := by
              rw [commands, hLink]
              exact hUpdate known first hStart
            exact ih hNext hRest

/-- What no execution changes of the commands stays as it is. -/
theorem unchanged_run {K : Type} {observe : C → K}
    (hSame : ∀ execution : Execution C, observe execution.after = observe execution.commands)
    (node : Node C) (events : List Event) :
    observe (node.run events).commands = observe node.commands := by
  induction events generalizing node with
  | nil => rfl
  | cons event rest ih =>
      refine (ih (node.step event)).trans ?_
      rcases node.step_cases event with ⟨_, kept⟩ | ⟨execution, _, hCommands, hLink, _⟩
      · exact congrArg observe kept.commands
      · rw [← hCommands, ← hSame execution, commands, hLink]
        rfl

/-- While nothing is executed the framer goes on with its packets and nothing else changes. -/
theorem kept_run {node : Node C} {events : List Event} (h : node.executions events = []) :
    Link.Kept node.link.value (node.run events).link.value := by
  induction events generalizing node with
  | nil => exact .refl _
  | cons event rest ih =>
      rw [executions, List.append_eq_nil_iff] at h
      rcases node.step_cases event with ⟨_, kept⟩ | ⟨execution, hOne, _⟩
      · exact kept.trans (ih h.2)
      · rw [hOne] at h
        cases h.1

end Steady

end Node

end Multidrop
