import Multidrop.Proofs.Node.Interleaving

/-!
The timer that ends a packet of which no more comes. It runs exactly while a packet is in progress
that no request came of yet, or else its silence was noted. So a node is never stuck in a packet:
either the timer will end it, or the next one to take the lock does, or a request is ready and a
poll does.
-/

namespace Multidrop

namespace Line

/-- The timer follows the calls in their order. -/
theorem Trace.timer_append (first second : Trace) (running : Bool) :
    Trace.timer (first ++ second) running = second.timer (first.timer running) :=
  Array.foldl_append

@[simp] theorem Trace.timer_push (trace : Trace) (call : Call) (running : Bool) :
    Trace.timer (trace.push call) running = call.timer (trace.timer running) := by
  simp [timer]

end Line

namespace Session

/-- What a session does comes after what was done on the line before. -/
theorem exists_send (session : Session) (bytes : List UInt8) :
    ∃ calls : Line.Trace, (session.send bytes).trace = session.trace ++ calls := by
  rw [send, take]
  cases session.transmitting with
  | true => exact ⟨#[.write bytes], rfl⟩
  | false => exact ⟨#[.transmit, .write bytes], rfl⟩

/-- To fill only adds calls to the trace. -/
theorem exists_fill (session : Session) (byte : UInt8) :
    ∃ calls : Line.Trace, (session.fill byte).trace = session.trace ++ calls := by
  induction session using fill.induct byte with
  | case1 session size hNone =>
      rw [fill, if_pos hNone]
      exact ⟨#[], Array.append_empty.symm⟩
  | case2 session size hMore ih =>
      obtain ⟨first, hFirst⟩ := session.exists_send (List.replicate size byte)
      obtain ⟨second, hSecond⟩ := ih
      rw [fill, if_neg hMore]
      exact ⟨first ++ second, by rw [hSecond, hFirst, Array.append_assoc]⟩

/-- So do all actions. -/
theorem exists_run (session : Session) (actions : List Action) :
    ∃ calls : Line.Trace, (session.run actions).trace = session.trace ++ calls := by
  induction actions generalizing session with
  | nil => exact ⟨#[], Array.append_empty.symm⟩
  | cons action rest ih =>
      obtain ⟨first, hFirst⟩ : ∃ calls : Line.Trace,
          (session.perform action).trace = session.trace ++ calls := by
        cases action with
        | send bytes => exact session.exists_send bytes
        | fill byte => exact session.exists_fill byte
        | setAddress address => exact ⟨#[], Array.append_empty.symm⟩
      obtain ⟨second, hSecond⟩ := ih (session.perform action)
      refine ⟨first ++ second, ?_⟩
      calc (session.run (action :: rest)).trace = (session.perform action).trace ++ second := hSecond
        _ = session.trace ++ (first ++ second) := by rw [hFirst, Array.append_assoc]

/-- A session ends with the timer stopped. -/
theorem exists_close (session : Session) :
    ∃ calls : Line.Trace, session.close = session.trace ++ calls ∧
      ∀ running, calls.timer running = false := by
  rw [close]
  cases session.transmitting with
  | true => exact ⟨#[.flush, .receive, .stopTimer], rfl, fun _ => rfl⟩
  | false => exact ⟨#[.stopTimer], rfl, fun _ => rfl⟩

end Session

namespace Packet

/-- Whether bytes of the packet came and no request came of them yet. -/
def inProgress (packet : Packet) : Bool :=
  !packet.isReady && packet.position != 0

/-- A request that is ready is no longer in progress. -/
theorem inProgress_of_request {packet : Packet} (h : packet.request? ≠ none) :
    packet.inProgress = false := by
  rw [← Option.isSome_iff_ne_none, ← isReady_eq] at h
  rw [inProgress, h, Bool.not_true, Bool.false_and]

end Packet

namespace Link

variable {C : Type}

/-- An operation on a framer that leaves the line free, and its timer running exactly if a packet is
in progress. -/
structure Times (before after : Link C) : Prop where
  timer : ∃ calls : Line.Trace, after.trace = before.trace ++ calls ∧
    ∀ running, calls.timer running = after.packet.inProgress
  untaken : before.trace.taken = false → after.trace.taken = false

/-- Where two steps keep the timer, so do both of them together. -/
theorem Times.trans {first second third : Link C} (left : Times first second)
    (right : Times second third) : Times first third := by
  obtain ⟨⟨calls, hCalls, _⟩, hFirst⟩ := left
  obtain ⟨⟨more, hMore, hTimer⟩, hSecond⟩ := right
  refine ⟨⟨calls ++ more, ?_, fun running => ?_⟩, fun hFree => hSecond (hFirst hFree)⟩
  · rw [hMore, hCalls, Array.append_assoc]
  · rw [Line.Trace.timer_append]
    exact hTimer _

/-- A silence ends the packet and stops the timer. -/
theorem times_timeout {link : Link C} (h : link.packet.request? = none) :
    Times link link.timeout := by
  have hReady : link.packet.isReady = false := by rw [Packet.isReady_eq, h]; rfl
  rw [timeout, hReady, if_neg Bool.false_ne_true]
  exact ⟨⟨#[.stopTimer], rfl, fun _ => rfl⟩, fun hFree => (kept_endPacket link).taken.trans hFree⟩

variable [CommandSet C]

/-- A request is executed with the line free and the timer stopped in the end. -/
theorem times_execution {link : Link C} {execution : Execution C}
    (h : link.due? = some execution) : Times link execution.link := by
  obtain ⟨calls, hCalls⟩ := execution.session.exists_run execution.actions
  obtain ⟨last, hLast, hTimer⟩ := (execution.session.run execution.actions).exists_close
  obtain ⟨hTrace, hFree⟩ : execution.session.trace = link.trace ∧
      execution.session.transmitting = false := by
    obtain ⟨commands, address, packet, trace⟩ := link
    cases packet with
    | ready request position =>
        cases h
        exact ⟨rfl, rfl⟩
    | opening bytes => cases h
    | passing header position collector => cases h
  refine ⟨⟨calls ++ last, ?_, fun running => ?_⟩, fun hUntaken => ?_⟩
  · calc execution.link.trace = (execution.session.run execution.actions).trace ++ last := hLast
      _ = link.trace ++ (calls ++ last) := by rw [hCalls, hTrace, Array.append_assoc]
  · rw [Line.Trace.timer_append, hTimer]
    rfl
  · have knows : execution.session.Knows := by
      rw [Session.Knows, hTrace, hUntaken, hFree]
    exact (knows.run execution.actions).taken_close

@[simp] theorem trace_openPacket (link : Link C) (header : Header) :
    (link.openPacket header).trace = link.trace := by
  unfold openPacket
  split
  · split <;> rfl
  · rfl

/-- Counting a byte leaves the timer alone. -/
theorem trace_count (link : Link C) (byte : UInt8) : (link.count byte).trace = link.trace := by
  unfold count
  split
  · dsimp only
    split
    · rfl
    · exact trace_openPacket link _
  · rfl
  · split <;> rfl
  · rfl

theorem position_openPacket (link : Link C) (header : Header) :
    (link.openPacket header).packet.position = Header.size := by
  unfold openPacket
  split
  · split <;> rfl
  · rfl

/-- A byte that is counted is not the last of nothing. -/
theorem position_count {link : Link C} (h : link.packet.request? = none) (byte : UInt8) :
    (link.count byte).packet.position ≠ 0 := by
  unfold count
  split
  · dsimp only
    split
    · simp [Packet.position]
    · rw [position_openPacket]
      decide
  · exact Nat.succ_ne_zero _
  · split <;> exact Nat.succ_ne_zero _
  · next hPacket =>
      rw [hPacket] at h
      cases h

/-- A byte starts the timer anew, and stops it if it is the last one that is wanted. -/
theorem times_receive {link : Link C} (h : link.packet.request? = none) (byte : UInt8) :
    Times link (link.receive byte) := by
  have hReady : link.packet.isReady = false := by rw [Packet.isReady_eq, h]; rfl
  have hCalled : (link.call .restartTimer).packet.request? = none := h
  have hTrace := (link.call .restartTimer).trace_count byte
  have hPosition := position_count hCalled byte
  rw [receive, hReady, if_neg Bool.false_ne_true]
  generalize (link.call .restartTimer).count byte = counted at hTrace hPosition ⊢
  have hUntaken : link.trace.taken = false → counted.settle.trace.taken = false := by
    intro hFree
    rw [(kept_settle counted).taken, hTrace, (kept_restartTimer link).taken, hFree]
  refine ⟨?_, hUntaken⟩
  unfold settle
  split
  case isTrue hDone =>
      have hStopped : counted.packet.inProgress = false := by
        rw [Packet.inProgress, hDone, Bool.not_true, Bool.false_and]
      refine ⟨#[.restartTimer, .stopTimer], ?_, fun _ => hStopped.symm⟩
      rw [call, hTrace]
      rfl
  case isFalse hMore =>
      split
      · refine ⟨#[.restartTimer, .stopTimer], ?_, fun _ => rfl⟩
        rw [endPacket, call, hTrace]
        rfl
      · refine ⟨#[.restartTimer], hTrace, fun _ => ?_⟩
        simp [Packet.inProgress, hMore, hPosition, Line.Trace.timer, Line.Call.timer]

end Link

namespace Node

variable {C : Type} {node : Node C}

/-- The timer runs only while a packet is in progress, and if it does not then its silence was
noted. -/
structure Watched (node : Node C) (running : Bool) : Prop where
  stopped : node.link.value.packet.inProgress = false → running = false
  attended : node.link.value.packet.inProgress = true → running = true ∨ node.expired = true

theorem watched_of_eq {running : Bool} (h : running = node.link.value.packet.inProgress) :
    node.Watched running :=
  ⟨fun hStopped => h.trans hStopped, fun hGoes => .inl (h.trans hGoes)⟩

variable [CommandSet C]

/-- What an event does to the timer. -/
inductive Minds (node : Node C) (event : Event) : Prop where
  /-- Nothing is done, and a silence that matters is noted and stays noted. -/
  | still (hLink : (node.step event).link.value = node.link.value)
      (hNoted : node.waiting = none → event = .silence ∨ node.expired = true →
        (node.step event).expired = true)
  /-- The timer is left running exactly if a packet is in progress. -/
  | timed (hTimes : Link.Times node.link.value (node.step event).link.value)

/-- An event that is no silence and changes neither framer nor note is nothing to the timer. -/
theorem minds_same {event : Event} (hEvent : event ≠ .silence)
    (hLink : (node.step event).link.value = node.link.value)
    (hExpired : (node.step event).expired = node.expired) : node.Minds event :=
  .still hLink fun _ hSilence => hExpired.trans (hSilence.resolve_left hEvent)

/-- Whoever accounts for a silence that was missed while no request waits ends the packet. -/
theorem minds_catchUp {event : Event} (hWaiting : node.waiting = none) (hEvent : event ≠ .silence)
    (hLink : (node.step event).link.value = node.catchUp.link.value) : node.Minds event := by
  rw [link_catchUp] at hLink
  cases hExpired : node.expired with
  | true =>
      rw [hExpired, if_pos rfl] at hLink
      refine .timed ?_
      rw [hLink]
      exact Link.times_timeout hWaiting
  | false =>
      rw [hExpired, if_neg Bool.false_ne_true] at hLink
      refine .still hLink fun _ hSilence => ?_
      rw [hExpired] at hSilence
      exact absurd (hSilence.resolve_left hEvent) Bool.false_ne_true

/-- A byte that is counted leaves the timer as the packet asks, whether a silence was missed or
not. -/
theorem minds_byte (hFree : node.link.held = false) (hWaiting : node.waiting = none) (byte : UInt8) :
    node.Minds (.byte byte) := by
  have hCaught := (request?_catchUp node).trans hWaiting
  have hReceived := Link.times_receive hCaught byte
  refine .timed ?_
  rw [step, receive_of_unlocked hFree]
  rw [link_catchUp] at hReceived ⊢
  cases hExpired : node.expired with
  | false => rwa [hExpired, if_neg Bool.false_ne_true] at hReceived
  | true =>
      rw [hExpired, if_pos rfl] at hReceived
      exact (Link.times_timeout hWaiting).trans hReceived

/-- While the lock is held, a silence is noted and nothing else is done. -/
theorem minds_held (hHeld : node.link.held = true) (event : Event) : node.Minds event := by
  cases event with
  | silence =>
      have hNoted : node.step .silence = { node with expired := true } := timeout_of_held hHeld
      exact .still (by rw [hNoted]) fun _ _ => by rw [hNoted]
  | byte byte =>
      have hSame : node.step (.byte byte) = node := receive_of_held hHeld byte
      exact minds_same nofun (by rw [hSame]) (by rw [hSame])
  | poll =>
      have hSame : node.step .poll = node := congrArg Prod.snd (poll_of_held hHeld)
      exact minds_same nofun (by rw [hSame]) (by rw [hSame])
  | lock =>
      have hSame : node.step .lock = node := lock_of_held hHeld
      exact minds_same nofun (by rw [hSame]) (by rw [hSame])
  | unlock => exact minds_same nofun rfl rfl

/-- While a request waits, nothing but its execution is done to the timer. -/
theorem minds_waiting (flagged : node.Flagged) (hFree : node.link.held = false)
    (hWaiting : node.waiting ≠ none) (event : Event) : node.Minds event := by
  have hCaught := link_catchUp_of_waiting hWaiting
  cases event with
  | silence =>
      have hReady : node.link.value.packet.isReady = true := by
        rw [Packet.isReady_eq, Option.isSome_iff_ne_none]
        exact hWaiting
      refine .still ?_ fun hNone => absurd hNone hWaiting
      rw [step, timeout_of_unlocked hFree, Link.timeout, hReady, if_pos rfl]
  | byte byte =>
      refine .still ?_ fun hNone => absurd hNone hWaiting
      rw [step, receive_of_waiting hFree hWaiting, hCaught]
  | lock =>
      refine .still ?_ fun hNone => absurd hNone hWaiting
      rw [step, lock_of_unlocked hFree, hCaught]
  | unlock => exact .still rfl fun hNone => absurd hNone hWaiting
  | poll =>
      obtain ⟨⟨request, position⟩, hFound⟩ := Option.ne_none_iff_exists'.mp hWaiting
      obtain ⟨execution, hDue, _, _, hPoll⟩ := due?_of_waiting hFree flagged hFound
      rw [due?_of_unlocked hFree, flagged hWaiting, if_pos rfl, hCaught] at hDue
      refine .timed ?_
      rw [step, hPoll]
      exact Link.times_execution hDue

/-- Every event starts and stops the timer as the packet starts and ends. -/
theorem minds_step (flagged : node.Flagged) (event : Event) : node.Minds event := by
  cases hFree : node.link.held with
  | true => exact minds_held hFree event
  | false =>
      by_cases hWaiting : node.waiting = none
      · cases event with
        | byte byte => exact minds_byte hFree hWaiting byte
        | silence =>
            refine .timed ?_
            rw [step, timeout_of_unlocked hFree]
            exact Link.times_timeout hWaiting
        | poll =>
            refine minds_catchUp hWaiting (by decide) ?_
            rw [step, (poll_of_not_waiting hFree hWaiting).2]
        | lock =>
            refine minds_catchUp hWaiting (by decide) ?_
            rw [step, lock_of_unlocked hFree]
        | unlock => exact minds_same (by decide) rfl rfl
      · exact minds_waiting flagged hFree hWaiting event

/-- Whether a timer that rings once runs after an event, given whether it ran before: the silence is
its ringing. -/
def timing (node : Node C) (running : Bool) (event : Event) : Bool :=
  Line.Trace.timer ((node.step event).link.value.trace.extract node.link.value.trace.size)
    (running && event ≠ .silence)

/-- Whether a timer that rings once runs after several events. -/
def timings (node : Node C) (running : Bool) : List Event → Bool
  | [] => running
  | event :: rest => (node.step event).timings (node.timing running event) rest

/-- If nothing is done to the timer it goes on, or rings and its silence is noted. -/
theorem Watched.still {event : Event} {running after : Bool} (watched : node.Watched running)
    (hLink : (node.step event).link.value = node.link.value)
    (hNoted : node.waiting = none → event = .silence ∨ node.expired = true →
      (node.step event).expired = true)
    (hAfter : after = running ∨ event = .silence ∧ after = false) :
    (node.step event).Watched after := by
  constructor
  · intro hStopped
    rw [hLink] at hStopped
    obtain rfl | ⟨_, rfl⟩ := hAfter
    · exact watched.stopped hStopped
    · rfl
  · intro hGoes
    rw [hLink] at hGoes
    have hWaiting : node.waiting = none := by
      by_cases hNone : node.waiting = none
      · exact hNone
      · rw [Packet.inProgress_of_request hNone] at hGoes
        cases hGoes
    obtain rfl | ⟨hSilence, _⟩ := hAfter
    · exact (watched.attended hGoes).imp_right fun hExpired => hNoted hWaiting (.inr hExpired)
    · exact .inr (hNoted hWaiting (.inl hSilence))

/-- By the calls made on it alone, the timer is watched after an event as it was before. -/
theorem watched_step (flagged : node.Flagged) (watched : node.Watched (node.link.value.trace.timer false))
    (event : Event) :
    (node.step event).Watched ((node.step event).link.value.trace.timer false) := by
  cases minds_step flagged event with
  | still hLink hNoted =>
      rw [hLink]
      exact watched.still hLink hNoted (.inl rfl)
  | timed hTimes =>
      obtain ⟨calls, hCalls, hTimer⟩ := hTimes.timer
      refine watched_of_eq ?_
      rw [hCalls, Line.Trace.timer_append, hTimer]

/-- A timer that rings once is watched after an event as it was before. -/
theorem watched_timing (flagged : node.Flagged) {running : Bool} (watched : node.Watched running)
    (event : Event) : (node.step event).Watched (node.timing running event) := by
  rw [timing]
  cases minds_step flagged event with
  | still hLink hNoted =>
      refine watched.still hLink hNoted ?_
      have hNothing : node.link.value.trace.extract node.link.value.trace.size = #[] := by simp
      rw [hLink, hNothing]
      by_cases hSilence : event = .silence
      · exact .inr ⟨hSilence, by simp [hSilence, Line.Trace.timer]⟩
      · exact .inl (by simp [hSilence, Line.Trace.timer])
  | timed hTimes =>
      obtain ⟨calls, hCalls, hTimer⟩ := hTimes.timer
      have hNew : (node.step event).link.value.trace.extract node.link.value.trace.size = calls := by
        rw [hCalls]
        simp
      refine watched_of_eq ?_
      rw [hNew, hTimer]

/-- A node that is not stuck in its packet. -/
structure Unstuck (node : Node C) (running : Bool) : Prop where
  untaken : node.link.value.trace.taken = false
  /-- A request that waits is flagged for the next poll, and nothing presses it. -/
  waiting : ∀ request position, node.waiting = some (request, position) →
    node.ready = true ∧ running = false ∧ 4 ≤ position ∧ position ≤ request.header.length.toNat
  /-- A packet in progress is ended by the timer, and is not over yet. -/
  going : node.waiting = none → node.link.value.position ≠ 0 →
    (running = true ∨ node.expired = true) ∧
      node.link.value.position < max 2 (node.link.value.packet.declared?.getD 0)
  /-- Nothing is left of a packet that is over. -/
  between : node.link.value.position = 0 → node.link.value.packet = .idle ∧ running = false
  counted : node.link.value.position ≤ 65535

/-- What is true of all packets that are not over bounds how far they have come. -/
theorem unstuck_of_watched {running : Bool} (reachable : node.link.value.Reachable)
    (flagged : node.Flagged) (watched : node.Watched running)
    (hUntaken : node.link.value.trace.taken = false) : node.Unstuck running := by
  have sound := reachable.sound
  have hStopped := watched.stopped
  have hAttended := watched.attended
  obtain ⟨⟨⟨commands, address, packet, trace⟩, held⟩, ready, expired⟩ := node
  dsimp only at sound hStopped hAttended hUntaken
  refine ⟨hUntaken, ?_, ?_, ?_, ?_⟩
  · intro request position hWaiting
    cases sound with
    | opening short more => cases hWaiting
    | passing started more wanted => cases hWaiting
    | ready started within wanted =>
        cases hWaiting
        exact ⟨flagged (by simp [waiting, Packet.request?]), hStopped rfl, started, within⟩
  · intro hNone hPosition
    have hGoes : packet.inProgress = true := by
      have hReady : packet.isReady = false := by
        rw [Packet.isReady_eq]
        exact congrArg Option.isSome hNone
      rw [Packet.inProgress, hReady]
      simpa [Link.position] using hPosition
    refine ⟨hAttended hGoes, ?_⟩
    cases sound with
    | @opening bytes short more =>
        dsimp only [Link.position, Packet.position, Packet.declared?]
        by_cases hKnown : 2 ≤ bytes.length
        · rw [if_pos hKnown, Option.getD_some]
          exact Nat.lt_of_lt_of_le (more hKnown) (Nat.le_max_right ..)
        · exact Nat.lt_of_lt_of_le (Nat.lt_of_not_le hKnown) (Nat.le_max_left ..)
    | passing started more wanted => exact Nat.lt_of_lt_of_le more (Nat.le_max_right ..)
    | ready started within wanted => cases hNone
  · intro hPosition
    have hIdle : packet = .idle := sound.eq_idle hPosition
    subst hIdle
    exact ⟨rfl, hStopped rfl⟩
  · cases sound with
    | opening short more =>
        dsimp only [Link.position, Packet.position]
        simp only [Header.size] at short
        omega
    | @passing header position collector started more wanted =>
        have hLength := header.length.toNat_lt
        dsimp only [Link.position, Packet.position]
        omega
    | @ready request position started within wanted =>
        have hLength := request.header.length.toNat_lt
        dsimp only [Link.position, Packet.position]
        omega

/-- No event leaves the line taken. -/
theorem untaken_step (flagged : node.Flagged) (hUntaken : node.link.value.trace.taken = false)
    (event : Event) : (node.step event).link.value.trace.taken = false := by
  cases minds_step flagged event with
  | still hLink hNoted => rwa [hLink]
  | timed hTimes => exact hTimes.untaken hUntaken

/-- Both readings of the timer stay watched over any number of events. -/
theorem watched_run (flagged : node.Flagged) (hUntaken : node.link.value.trace.taken = false)
    (watched : node.Watched (node.link.value.trace.timer false)) {running : Bool}
    (rings : node.Watched running) (events : List Event) :
    (node.run events).link.value.trace.taken = false ∧
      (node.run events).Watched ((node.run events).link.value.trace.timer false) ∧
      (node.run events).Watched (node.timings running events) := by
  induction events generalizing node running with
  | nil => exact ⟨hUntaken, watched, rings⟩
  | cons event rest ih =>
      exact ih (flagged_step flagged event) (untaken_step flagged hUntaken event)
        (watched_step flagged watched event) (watched_timing flagged rings event)

/-- A silence drops what came of a packet, and a poll executes what waits. -/
theorem idle_after (flagged : node.Flagged) (hFree : node.link.held = false) :
    (node.run [.silence, .poll]).Idle := by
  have hFreeAfter : node.timeout.link.held = false := (held_timeout node).trans hFree
  have flaggedAfter : node.timeout.Flagged := flagged_step flagged .silence
  change node.timeout.poll.2.Idle
  cases hWaiting : node.timeout.waiting with
  | some found =>
      obtain ⟨execution, _, _, _, hPoll⟩ := due?_of_waiting hFreeAfter flaggedAfter hWaiting
      rw [hPoll]
      exact ⟨rfl, rfl⟩
  | none =>
      have hReady : node.catchUp.link.value.packet.isReady = false := by
        rw [Packet.isReady_eq, request?_catchUp, ← waiting_timeout, hWaiting]
        rfl
      rw [(poll_of_not_waiting hFreeAfter hWaiting).2]
      refine ⟨(held_catchUp node.timeout).trans hFreeAfter, ?_⟩
      rw [link_catchUp_ready, catchUp_of_not_expired (expired_catchUp node.timeout),
        link_catchUp_timeout hFree, Link.timeout, hReady, if_neg Bool.false_ne_true]
      rfl

/-- Whatever calls are made on a node, in any order, it is not stuck in a packet: not if the timer
is taken for running since it was last restarted, not if it rings once and then waits to be
restarted, and not when interrupts come in the middle of a call, once the main loop is back from it.
A silence and a poll take the node to the time between packets. -/
theorem never_stuck (commands : C) (address : UInt8) (events : List Event) :
    let node := (start commands address).run events
    node.Unstuck (node.link.value.trace.timer false) ∧
      node.Unstuck ((start commands address).timings false events) ∧
      (node.link.held = false → (node.run [.silence, .poll]).Idle) ∧
      ∀ moves : List Move,
        let state := (Interleaved.start commands address).run moves
        state.stage = .away → state.node.Unstuck (state.node.link.value.trace.timer false) := by
  have hStart := flagged_start commands address
  have hUnstuck (events : List Event) :
      let node := (start commands address).run events
      node.Unstuck (node.link.value.trace.timer false) ∧
        node.Unstuck ((start commands address).timings false events) := by
    have reachable := reachable_run (reachable_start commands address) events
    have flagged := flagged_run hStart events
    have fresh : (start commands address).Watched false := watched_of_eq rfl
    obtain ⟨hUntaken, watched, rings⟩ := watched_run hStart rfl fresh fresh events
    exact ⟨unstuck_of_watched reachable flagged watched hUntaken,
      unstuck_of_watched reachable flagged rings hUntaken⟩
  obtain ⟨hCalls, hRings⟩ := hUnstuck events
  refine ⟨hCalls, hRings, idle_after (flagged_run hStart events), ?_⟩
  intro moves state hAway
  obtain ⟨others, _, hNode⟩ := Interleaved.exists_run commands address moves
  have hOthers := (hUnstuck others).1
  rwa [hNode hAway] at hOthers

/-- Three bytes of a packet come, and a silence while the lock is held. The timer has rung and is
not restarted, but the silence is noted, and the next poll ends the packet. -/
theorem never_stuck_missed :
    let commands : Scripted := ⟨⟨#[], [], [], [], #[]⟩, {}, [], [], #[]⟩
    let events : List Event := [5, 0, 5].map .byte ++ [.lock, .silence, .unlock]
    let moves : List Move :=
      [5, 0, 5].map .byte ++ [.lock, .proceed, .proceed, .silence, .proceed, .poll] ++
        .replicate 5 .proceed
    let node := (start commands 5).run events
    let state := (Interleaved.start commands 5).run moves
    (node.link.value.position = 3 ∧ (start commands 5).timings false events = false ∧
        node.expired = true ∧ (node.run [.silence, .poll]).Idle) ∧
      state.stage = .away ∧ state.node.link.value.position = 0 ∧
        state.node.Unstuck (state.node.link.value.trace.timer false) := by
  intro commands events moves node state
  have hAway : state.stage = .away := by decide
  have hPosition : node.link.value.position = 3 := by decide
  have hRung : (start commands 5).timings false events = false := by decide
  obtain ⟨_, rings, hIdle, hMoves⟩ := never_stuck commands 5 events
  have hNoted := (rings.going (by decide) (by decide)).1.resolve_left (by decide)
  exact ⟨⟨hPosition, hRung, hNoted, hIdle (by decide)⟩, hAway, by decide, hMoves moves hAway⟩

end Node

end Multidrop
