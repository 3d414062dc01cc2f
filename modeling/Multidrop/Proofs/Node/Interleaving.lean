import Multidrop.Node.Scripted
import Multidrop.Proofs.Node.Noting
import Multidrop.Proofs.Node.Readiness

/-!
Interrupts that come while the main loop is in the middle of a call. A poll is not one step: it
looks at one flag, takes another, and each time it takes the lock it looks again for a silence that
was missed. Whatever the interrupts do meanwhile, what comes of it is what comes of whole calls in
some order, so that each request that becomes ready is executed once.
-/

namespace Multidrop

/-- What the main loop takes the lock for. -/
inductive Errand where
  /-- To use the framer. -/
  | use
  /-- To account for a silence that a poll saw was missed. -/
  | catchUp
  /-- To execute the request whose flag a poll took. -/
  | execute
  deriving DecidableEq

/-- How far the main loop is in a call on its node. -/
inductive Stage where
  /-- It is in no call. -/
  | away
  /-- It is about to take the lock. -/
  | coming (errand : Errand)
  /-- It took the lock and is about to look whether a silence was missed. -/
  | taking (errand : Errand)
  /-- It holds the lock and has the framer. -/
  | holding (errand : Errand)
  /-- It is about to take the flag of a request. -/
  | asking
  /-- It executed the request and still holds the lock. -/
  | leaving
  deriving DecidableEq

/-- Whether the main loop holds the lock, at the stages at which it has begun nothing else. -/
def Stage.plain? : Stage → Option Bool
  | away | asking | coming .use | coming .catchUp => some false
  | holding .use | holding .catchUp | leaving => some true
  | coming .execute | taking _ | holding .execute => none

/-- One step of an interrupt or of the main loop. -/
inductive Move where
  | byte (byte : UInt8)
  | silence
  /-- The main loop begins to poll, if it is in no call. -/
  | poll
  /-- The main loop begins to take the lock, if it is in no call. -/
  | lock
  /-- The main loop goes one step on in its call. -/
  | proceed
  deriving DecidableEq

/-- A node whose main loop may be in the middle of a call. -/
structure Interleaved (C : Type) where
  node : Node C
  stage : Stage

namespace Interleaved

variable {C : Type}

/-- A node that was just started, with its main loop in no call. -/
def start (commands : C) (address : UInt8) : Interleaved C :=
  ⟨.start commands address, .away⟩

variable [CommandSet C]

/-- The next step of the call that the main loop is in. -/
def proceed (state : Interleaved C) : Interleaved C :=
  match state with
  | ⟨node, .away⟩ => ⟨node, .away⟩
  | ⟨node, .coming errand⟩ => ⟨{ node with link := node.link.tryLock.2 }, .taking errand⟩
  | ⟨node, .taking errand⟩ => ⟨node.catchUp, .holding errand⟩
  | ⟨node, .holding .use⟩ => ⟨node.unlock, .away⟩
  | ⟨node, .holding .catchUp⟩ => ⟨node.unlock, .asking⟩
  | ⟨node, .holding .execute⟩ => ⟨node.put node.link.value.execute.2, .leaving⟩
  | ⟨node, .asking⟩ =>
    if node.ready then ⟨{ node with ready := false }, .coming .execute⟩ else ⟨node, .away⟩
  | ⟨node, .leaving⟩ => ⟨node.unlock, .away⟩

def step (state : Interleaved C) : Move → Interleaved C
  | .byte byte => ⟨state.node.receive byte, state.stage⟩
  | .silence => ⟨state.node.timeout, state.stage⟩
  | .poll =>
    if state.stage = .away then
      ⟨state.node, if state.node.expired then .coming .catchUp else .asking⟩
    else state
  | .lock => if state.stage = .away then ⟨state.node, .coming .use⟩ else state
  | .proceed => state.proceed

def run (state : Interleaved C) (moves : List Move) : Interleaved C :=
  moves.foldl step state

/-- The request executed by a move. -/
def executed (state : Interleaved C) (move : Move) : List (Execution C) :=
  if move = .proceed ∧ state.stage = .holding .execute then state.node.link.value.due?.toList
  else []

/-- The requests executed by several moves, in order. -/
def executions (state : Interleaved C) : List Move → List (Execution C)
  | [] => []
  | move :: rest => state.executed move ++ (state.step move).executions rest

/-- The request that a move makes ready, and how many bytes of its packet went by then. -/
def readies (state : Interleaved C) (move : Move) : Option (Request × Nat) :=
  state.node.waiting.elim (state.step move).node.waiting fun _ => none

/-- The requests that become ready during several moves, in order. -/
def readied (state : Interleaved C) : List Move → List (Request × Nat)
  | [] => []
  | move :: rest => (state.readies move).toList ++ (state.step move).readied rest

/-- The flag of a request, for whoever looks while the main loop is on an errand. -/
def flag (node : Node C) : Errand → Bool
  | .execute => false
  | .use | .catchUp => node.ready

/-- A node between calls that has come to where an interleaving has, but for what the main loop has
begun and has nothing to show for yet. -/
inductive Follows (node : Node C) : Interleaved C → Prop where
  /-- Everybody sees all that the main loop did. -/
  | plain {stage : Stage} (hStage : stage.plain? = some node.link.held) : Follows node ⟨node, stage⟩
  /-- The main loop took the flag of the request that waits. -/
  | sure (hFree : node.link.held = false) (hWaiting : node.waiting ≠ none) :
      Follows node ⟨{ node with ready := false }, .coming .execute⟩
  /-- The main loop took the lock, and silences are noted from now on. -/
  | taking {now : Node C} {errand : Errand} (hLock : now.link.held = true)
      (hFlag : now.ready = flag node errand)
      (hCaught : now.catchUp.link.value = node.catchUp.link.value) (hFree : node.link.held = false)
      (hWaits : errand = .execute → node.waiting ≠ none) : Follows node ⟨now, .taking errand⟩
  /-- The main loop has the request that waits, and silences wait until it is executed. -/
  | executing {silent : Bool} (hFree : node.link.held = false) (hWaiting : node.waiting ≠ none) :
      Follows node ⟨⟨⟨node.catchUp.link.value, true⟩, false, silent⟩, .holding .execute⟩

end Interleaved

namespace Node

variable {C : Type} {node : Node C}

/-- A timeout does not touch the lock. -/
theorem held_timeout (node : Node C) : node.timeout.link.held = node.link.held := by
  cases hHeld : node.link.held with
  | true => rw [timeout_of_held hHeld, hHeld]
  | false => rw [timeout_of_unlocked hHeld]

/-- What is in the framer does not hang on the flag of a request. -/
theorem link_catchUp_ready (node : Node C) (ready : Bool) :
    { node with ready }.catchUp.link.value = node.catchUp.link.value := by
  rw [link_catchUp, link_catchUp]

/-- A silence that was missed can be accounted for before or after one that is not. -/
theorem link_catchUp_timeout (h : node.link.held = false) :
    node.timeout.catchUp.link.value = node.catchUp.link.value.timeout := by
  rw [link_catchUp, link_catchUp, timeout_of_unlocked h]
  cases node.expired with
  | true => rfl
  | false => rfl

/-- Nor does a byte. -/
theorem held_receive [CommandSet C] (node : Node C) (byte : UInt8) :
    (node.receive byte).link.held = node.link.held := by
  cases hHeld : node.link.held with
  | true => rw [receive_of_held hHeld, hHeld]
  | false => rw [receive_of_unlocked hHeld]

/-- While a request waits, a byte accounts for a silence that was missed and is lost. -/
theorem receive_of_waiting [CommandSet C] (hFree : node.link.held = false) (h : node.waiting ≠ none)
    (byte : UInt8) :
    node.receive byte = ⟨⟨node.catchUp.link.value, false⟩, node.ready, false⟩ := by
  have hRequest : node.catchUp.link.value.packet.request? ≠ none := by
    rwa [request?_catchUp]
  have hReady : node.catchUp.link.value.packet.isReady = true := by
    rw [Packet.isReady_eq, Option.isSome_iff_ne_none]
    exact hRequest
  rw [receive_of_unlocked hFree, Link.receive_of_request hRequest, hReady, Bool.not_true,
    Bool.false_and, Bool.or_false]

end Node

namespace Interleaved

variable {C : Type} {node : Node C}

/-- In the middle of a poll as many requests wait as after it. -/
theorem Follows.waiting {state : Interleaved C} (follows : Follows node state) :
    state.node.waiting = node.waiting := by
  cases follows with
  | plain hStage => rfl
  | sure hFree hWaiting => rfl
  | @taking now errand hLock hFlag hCaught hFree hWaits =>
      calc now.waiting = now.catchUp.link.value.packet.request? := (Node.request?_catchUp now).symm
        _ = node.waiting := by rw [hCaught, Node.request?_catchUp]
  | executing hFree hWaiting => exact Node.request?_catchUp node

/-- Who executes a request holds the lock. -/
theorem Follows.held_of_executing {state : Interleaved C} (follows : Follows node state)
    (h : state.stage = .holding .execute) : state.node.link.held = true := by
  cases follows with
  | executing hFree hWaiting => rfl
  | sure hFree hWaiting => cases h
  | taking hLock hFlag hCaught hFree hWaits => cases h
  | plain hStage =>
      dsimp only at h
      subst h
      cases hStage

variable [CommandSet C] {state : Interleaved C} {move : Move}

/-- Whole calls that do to a node what a move does. -/
structure Serves (node : Node C) (state : Interleaved C) (move : Move) (events : List Node.Event) :
    Prop where
  follows : Follows (node.run events) (state.step move)
  executed : state.executed move = node.executions events
  readied : (state.readies move).toList = node.readied events

/-- A call does what a move does if it executes the same and comes to the same. -/
theorem serves_event {event : Node.Event} (follows : Follows node state)
    (hExecuted : state.executed move = node.executed event)
    (next : Follows (node.step event) (state.step move)) : Serves node state move [event] := by
  refine ⟨next, ?_, ?_⟩
  · rw [Node.executions, Node.executions, List.append_nil, hExecuted]
  · have hBefore := follows.waiting
    have hAfter := next.waiting
    rw [Node.readied, Node.readied, List.append_nil, readies, Node.readies, hBefore, hAfter]

/-- A move that nobody can see is nothing. -/
theorem serves_nothing (follows : Follows node state) (hExecuted : state.executed move = [])
    (next : Follows node (state.step move)) : Serves node state move [] := by
  refine ⟨next, hExecuted, ?_⟩
  have hBefore := follows.waiting
  have hAfter := next.waiting
  rw [readies, hBefore, hAfter]
  cases node.waiting with
  | none => rfl
  | some found => rfl

/-- A byte is a call by itself, unless it is lost because the main loop has the lock for something
that is still to come. -/
theorem serves_byte (follows : Follows node state) (byte : UInt8) :
    ∃ events, Serves node state (.byte byte) events := by
  have here := follows
  cases follows with
  | plain hStage =>
      refine ⟨[.byte byte], serves_event here rfl (.plain ?_)⟩
      rw [Node.step, Node.held_receive]
      exact hStage
  | sure hFree hWaiting =>
      let taken : Node C := { node with ready := false }
      have hTakenFree : taken.link.held = false := hFree
      have hOurs := Node.receive_of_waiting hFree hWaiting byte
      have hTheirs := Node.receive_of_waiting hTakenFree hWaiting byte
      rw [Node.link_catchUp_ready] at hTheirs
      have hSame : taken.receive byte = { node.receive byte with ready := false } := by
        rw [hTheirs, hOurs]
      refine ⟨[.byte byte], serves_event here rfl ?_⟩
      change Follows (node.receive byte) ⟨taken.receive byte, _⟩
      rw [hSame]
      refine .sure ((node.held_receive byte).trans hFree) ?_
      rwa [Node.waiting_receive hWaiting]
  | @taking now errand hLock hFlag hCaught hFree hWaits =>
      have hLost : now.receive byte = now := Node.receive_of_held hLock byte
      refine ⟨[], serves_nothing here rfl ?_⟩
      change Follows node ⟨now.receive byte, _⟩
      rwa [hLost]
  | executing hFree hWaiting => exact ⟨[], serves_nothing here rfl here⟩

/-- A silence is a call by itself, unless the main loop has the lock for something that is still to
come. Then it is noted: before the main loop looks for a missed silence it is one call with that,
afterwards it is one that comes once the execution is over. -/
theorem serves_silence (follows : Follows node state) :
    ∃ events, Serves node state .silence events := by
  have here := follows
  cases follows with
  | plain hStage =>
      refine ⟨[.silence], serves_event here rfl (.plain ?_)⟩
      rw [Node.step, Node.held_timeout]
      exact hStage
  | sure hFree hWaiting =>
      let taken : Node C := { node with ready := false }
      have hTakenFree : taken.link.held = false := hFree
      have hSame : taken.timeout = { node.timeout with ready := false } := by
        rw [Node.timeout_of_unlocked hTakenFree, Node.timeout_of_unlocked hFree]
      refine ⟨[.silence], serves_event here rfl ?_⟩
      change Follows node.timeout ⟨taken.timeout, _⟩
      rw [hSame]
      refine .sure (node.held_timeout.trans hFree) ?_
      rwa [Node.waiting_timeout]
  | @taking now errand hLock hFlag hCaught hFree hWaits =>
      have hNoted : now.timeout = { now with expired := true } := Node.timeout_of_held hLock
      cases hExpired : now.expired with
      | true =>
          refine ⟨[], serves_nothing here rfl ?_⟩
          change Follows node ⟨now.timeout, _⟩
          rwa [hNoted, ← hExpired]
      | false =>
          have hNow : now.link.value = node.catchUp.link.value := by
            rw [← hCaught, Node.catchUp_of_not_expired hExpired]
          refine ⟨[.silence], serves_event here rfl ?_⟩
          change Follows node.timeout ⟨now.timeout, .taking errand⟩
          rw [hNoted]
          refine .taking hLock ?_ ?_ (node.held_timeout.trans hFree) ?_
          · cases errand with
            | execute => exact hFlag
            | use => exact hFlag.trans node.ready_timeout.symm
            | catchUp => exact hFlag.trans node.ready_timeout.symm
          · rw [Node.link_catchUp_timeout hFree, Node.link_catchUp, ← hNow, if_pos rfl]
          · rw [Node.waiting_timeout]
            exact hWaits
  | executing hFree hWaiting =>
      exact ⟨[], serves_nothing here rfl (.executing hFree hWaiting)⟩

/-- To begin a call changes nothing yet. -/
theorem serves_beginning (follows : Follows node state) (hMove : move = .poll ∨ move = .lock) :
    Serves node state move [] := by
  have hExecuted : state.executed move = [] := by
    obtain rfl | rfl := hMove
    · rfl
    · rfl
  refine serves_nothing follows hExecuted ?_
  by_cases hAway : state.stage = .away
  · cases follows with
    | plain hStage =>
        dsimp only at hAway
        subst hAway
        obtain rfl | rfl := hMove
        · change Follows node ⟨node, if node.expired then .coming .catchUp else .asking⟩
          split
          · exact .plain hStage
          · exact .plain hStage
        · exact .plain hStage
    | sure hFree hWaiting => cases hAway
    | taking hLock hFlag hCaught hFree hWaits => cases hAway
    | executing hFree hWaiting => cases hAway
  · obtain rfl | rfl := hMove
    · rwa [step, if_neg hAway]
    · rwa [step, if_neg hAway]

/-- The execution of a request, with the silence that may have been missed meanwhile, is a poll and
a time for which the lock is held. -/
theorem serves_execution (flagged : node.Flagged) {silent : Bool} (hFree : node.link.held = false)
    (hWaiting : node.waiting ≠ none) :
    ∃ events, Serves node ⟨⟨⟨node.catchUp.link.value, true⟩, false, silent⟩, .holding .execute⟩
      .proceed events := by
  obtain ⟨⟨request, position⟩, hFound⟩ := Option.ne_none_iff_exists'.mp hWaiting
  obtain ⟨execution, hDue, _, _, hPoll⟩ := Node.due?_of_waiting hFree flagged hFound
  have hCaught : node.catchUp.link.value.due? = some execution := by
    rw [Node.due?_of_unlocked hFree, flagged hWaiting, if_pos rfl] at hDue
    exact hDue
  have hExecute : node.catchUp.link.value.execute.2 = execution.link := by
    rw [Link.execute_eq, hCaught]
  have hBefore : node.catchUp.link.value.packet.request? = some (request, position) :=
    (Node.request?_catchUp node).trans hFound
  -- the lock is taken right after the poll, and a silence that was missed comes then
  let missed : List Node.Event := if silent then [.silence] else []
  have hRun : node.run (.poll :: .lock :: missed) = ⟨⟨execution.link, true⟩, false, silent⟩ := by
    change node.poll.2.lock.run missed = _
    rw [hPoll]
    cases silent with
    | true => rfl
    | false => rfl
  refine ⟨.poll :: .lock :: missed, ?_, ?_, ?_⟩
  · rw [hRun]
    change Follows _ ⟨⟨⟨node.catchUp.link.value.execute.2, true⟩, false, silent⟩, .leaving⟩
    rw [hExecute]
    exact .plain rfl
  · have hExecuted : node.executions (.poll :: .lock :: missed) = [execution] := by
      rw [Node.executions, Node.executed, hDue]
      cases silent with
      | true => rfl
      | false => rfl
    rw [hExecuted]
    exact congrArg Option.toList hCaught
  · have hReadies :
        readies ⟨⟨⟨node.catchUp.link.value, true⟩, false, silent⟩, .holding .execute⟩ .proceed =
          none := by
      rw [readies, Node.waiting, hBefore, Option.elim_some]
    have hReadied : node.readied (.poll :: .lock :: missed) = [] := by
      rw [Node.readied, Node.readies, hFound, Node.step, hPoll]
      cases silent with
      | true => rfl
      | false => rfl
    rw [hReadies, hReadied]
    rfl

/-- To take the lock is nothing yet: interrupts only note what comes. -/
theorem serves_coming {now : Node C} {errand : Errand} (here : Follows node ⟨now, .coming errand⟩)
    (hFlag : now = { node with ready := flag node errand }) (hFree : node.link.held = false)
    (hWaits : errand = .execute → node.waiting ≠ none) :
    Serves node ⟨now, .coming errand⟩ .proceed [] := by
  subst hFlag
  refine serves_nothing here rfl ?_
  change Follows node ⟨{ node with link := node.link.tryLock.2, ready := _ }, _⟩
  rw [Lock.tryLock, hFree, if_neg Bool.false_ne_true]
  refine .taking rfl rfl ?_ hFree hWaits
  rw [Node.link_catchUp, Node.link_catchUp]

/-- To look for a missed silence is to take the lock, unless it is to execute a request. -/
theorem serves_taking {now : Node C} {errand : Errand} (here : Follows node ⟨now, .taking errand⟩)
    (hNow : now.catchUp = ⟨⟨node.catchUp.link.value, true⟩, flag node errand, false⟩)
    (hFree : node.link.held = false) (hWaits : errand = .execute → node.waiting ≠ none) :
    ∃ events, Serves node ⟨now, .taking errand⟩ .proceed events := by
  have hLocked : node.step .lock = ⟨⟨node.catchUp.link.value, true⟩, node.ready, false⟩ :=
    Node.lock_of_unlocked hFree
  have hHeld {stage : Stage} (hStage : stage.plain? = some true) :
      Follows (node.step .lock) ⟨⟨⟨node.catchUp.link.value, true⟩, node.ready, false⟩, stage⟩ := by
    rw [hLocked]
    exact .plain hStage
  cases errand with
  | execute =>
      refine ⟨[], serves_nothing here rfl ?_⟩
      change Follows node ⟨now.catchUp, .holding .execute⟩
      rw [hNow]
      exact .executing hFree (hWaits rfl)
  | use =>
      refine ⟨[.lock], serves_event here rfl ?_⟩
      change Follows (node.step .lock) ⟨now.catchUp, .holding .use⟩
      rw [hNow]
      exact hHeld rfl
  | catchUp =>
      refine ⟨[.lock], serves_event here rfl ?_⟩
      change Follows (node.step .lock) ⟨now.catchUp, .holding .catchUp⟩
      rw [hNow]
      exact hHeld rfl

/-- One step of the main loop is nothing, a lock, an unlock, or the execution of a request. -/
theorem serves_proceed (flagged : node.Flagged) (prompt : node.Prompt) (follows : Follows node state) :
    ∃ events, Serves node state .proceed events := by
  have here := follows
  cases follows with
  | sure hFree hWaiting => exact ⟨[], serves_coming here rfl hFree fun _ => hWaiting⟩
  | executing hFree hWaiting => exact serves_execution flagged hFree hWaiting
  | taking hLock hFlag hCaught hFree hWaits =>
      refine serves_taking here ?_ hFree hWaits
      rw [Node.catchUp_eq, hLock, hFlag, hCaught]
  | @plain stage hStage =>
      cases stage with
      | away => exact ⟨[], serves_nothing here rfl here⟩
      | leaving => exact ⟨[.unlock], serves_event here rfl (.plain rfl)⟩
      | taking errand => cases hStage
      | coming errand =>
          cases errand with
          | execute => cases hStage
          | use =>
              have hFree : node.link.held = false := (Option.some.inj hStage).symm
              exact ⟨[], serves_coming here rfl hFree nofun⟩
          | catchUp =>
              have hFree : node.link.held = false := (Option.some.inj hStage).symm
              exact ⟨[], serves_coming here rfl hFree nofun⟩
      | holding errand =>
          cases errand with
          | execute => cases hStage
          | use => exact ⟨[.unlock], serves_event here rfl (.plain rfl)⟩
          | catchUp => exact ⟨[.unlock], serves_event here rfl (.plain rfl)⟩
      | asking =>
          refine ⟨[], serves_nothing here rfl ?_⟩
          change Follows node (if node.ready then _ else _)
          cases hReady : node.ready with
          | true => exact .sure (Option.some.inj hStage).symm (prompt hReady)
          | false => exact .plain hStage

/-- Every move serves some events, or none. -/
theorem serves_move (flagged : node.Flagged) (prompt : node.Prompt) (follows : Follows node state)
    (move : Move) : ∃ events, Serves node state move events := by
  cases move with
  | byte byte => exact serves_byte follows byte
  | silence => exact serves_silence follows
  | poll => exact ⟨[], serves_beginning follows (.inl rfl)⟩
  | lock => exact ⟨[], serves_beginning follows (.inr rfl)⟩
  | proceed => exact serves_proceed flagged prompt follows

/-- What comes of any moves comes of whole calls in some order. -/
theorem serialized (flagged : node.Flagged) (prompt : node.Prompt) (follows : Follows node state)
    (moves : List Move) :
    ∃ events, Follows (node.run events) (state.run moves) ∧
      state.executions moves = node.executions events ∧
      state.readied moves = node.readied events := by
  induction moves generalizing node state with
  | nil => exact ⟨[], follows, rfl, rfl⟩
  | cons move rest ih =>
      obtain ⟨first, serves⟩ := serves_move flagged prompt follows move
      obtain ⟨second, hFollows, hExecutions, hReadied⟩ :=
        ih (Node.flagged_run flagged first) (Node.prompt_run prompt first) serves.follows
      refine ⟨first ++ second, ?_, ?_, ?_⟩
      · rw [Node.run_append]
        exact hFollows
      · rw [Node.executions_append, ← serves.executed, ← hExecutions]
        rfl
      · rw [Node.readied_append, ← serves.readied, ← hReadied]
        rfl

/-- Whole calls execute what an interleaving executes, and make the same node of it if the main loop
is in no call. -/
theorem exists_run (commands : C) (address : UInt8) (moves : List Move) :
    ∃ events,
      (start commands address).executions moves = (Node.start commands address).executions events ∧
        (((start commands address).run moves).stage = .away →
          (Node.start commands address).run events = ((start commands address).run moves).node) := by
  have here : Follows (.start commands address) (start commands address) := .plain rfl
  obtain ⟨events, hFollows, hExecutions, _⟩ := serialized (Node.flagged_start commands address)
    (Node.prompt_start commands address) here moves
  refine ⟨events, hExecutions, fun hAway => ?_⟩
  generalize (start commands address).run moves = state at hAway hFollows
  cases hFollows with
  | plain hStage => rfl
  | sure hFree hWaiting => cases hAway
  | taking hLock hFlag hCaught hFree hWaits => cases hAway
  | executing hFree hWaiting => cases hAway

/-- Where a poll looks at the flag of a request, the flag is raised exactly if one waits, and where
it comes to execute a request that one still waits. -/
theorem finds (commands : C) (address : UInt8) (moves : List Move) :
    let state := (start commands address).run moves
    (state.stage = .asking → (state.node.ready = true ↔ state.node.waiting ≠ none)) ∧
      (state.stage = .holding .execute → state.node.waiting ≠ none) := by
  have here : Follows (.start commands address) (start commands address) := .plain rfl
  have hFlagged := Node.flagged_start commands address
  have hPrompt := Node.prompt_start commands address
  obtain ⟨events, hFollows, _, _⟩ := serialized hFlagged hPrompt here moves
  have flagged := Node.flagged_run hFlagged events
  have prompt := Node.prompt_run hPrompt events
  have hWaits := hFollows.waiting
  dsimp only
  generalize (start commands address).run moves = state at hFollows hWaits ⊢
  cases hFollows with
  | plain hStage =>
      refine ⟨fun _ => ⟨prompt, flagged⟩, fun hHolding => ?_⟩
      dsimp only at hHolding
      subst hHolding
      cases hStage
  | sure hFree hWaiting => exact ⟨nofun, nofun⟩
  | taking hLock hFlag hCaught hFree hWaits => exact ⟨nofun, nofun⟩
  | executing hFree hWaiting => exact ⟨nofun, fun _ => by rwa [hWaits]⟩

/-- No order of interrupts and steps of the main loop loses, repeats or changes a request. -/
theorem account (commands : C) (address : UInt8) (moves : List Move) :
    ((start commands address).executions moves).map Execution.requested ++
        ((start commands address).run moves).node.waiting.toList =
      (start commands address).readied moves := by
  have here : Follows (.start commands address) (start commands address) := .plain rfl
  obtain ⟨events, hFollows, hExecutions, hReadied⟩ := serialized
    (Node.flagged_start commands address) (Node.prompt_start commands address) here moves
  rw [hExecutions, hReadied, hFollows.waiting,
    ← Node.account_run (Node.flagged_start commands address) events]
  rfl

/-- An interleaving whose commands note what they are told is another one but for the notes, which
are these. -/
structure Noted (noted : Interleaved (Noting C)) (state : Interleaved C)
    (notes : List (Execution C)) : Prop where
  node : noted.node.Noted state.node notes
  stage : noted.stage = state.stage

variable {noted : Interleaved (Noting C)} {notes : List (Execution C)}

/-- The steps of the main loop note a request where it is executed and nowhere else. -/
theorem Noted.proceed (follows : Follows node state) (here : Noted noted state notes) :
    Noted noted.proceed state.proceed (notes ++ state.executed .proceed) := by
  have hLocked := follows.held_of_executing
  obtain ⟨other, stage⟩ := noted
  obtain ⟨now, _⟩ := state
  obtain ⟨hNode, rfl⟩ := here
  have hLink := hNode.link
  have hHeld := hNode.held
  have hUnlock : other.unlock.Noted now.unlock notes := { hNode with held := rfl }
  have hNothing (h : stage ≠ .holding .execute) :
      notes ++ Interleaved.executed ⟨now, stage⟩ .proceed = notes := by
    rw [Interleaved.executed, if_neg fun both => h both.2, List.append_nil]
  dsimp only at hNode hLink hHeld hUnlock
  cases stage with
  | away => exact (hNothing (by simp)).symm ▸ ⟨hNode, rfl⟩
  | leaving => exact (hNothing (by simp)).symm ▸ ⟨hUnlock, rfl⟩
  | taking errand => exact (hNothing (by simp)).symm ▸ ⟨hNode.catchUp, rfl⟩
  | coming errand =>
      refine (hNothing (by simp)).symm ▸ ⟨?_, rfl⟩
      change Node.Noted { other with link := other.link.tryLock.2 }
        { now with link := now.link.tryLock.2 } notes
      rw [Lock.tryLock, Lock.tryLock, hHeld]
      split
      · exact hNode
      · exact { hNode with held := rfl }
  | asking =>
      refine (hNothing (by simp)).symm ▸ ?_
      change Noted (if other.ready then _ else _) (if now.ready then _ else _) notes
      rw [hNode.ready]
      split
      · exact ⟨{ hNode with ready := rfl }, rfl⟩
      · exact ⟨hNode, rfl⟩
  | holding errand =>
      cases errand with
      | use => exact (hNothing (by simp)).symm ▸ ⟨hUnlock, rfl⟩
      | catchUp => exact (hNothing (by simp)).symm ▸ ⟨hUnlock, rfl⟩
      | execute =>
          have hOurs : now.link.held = true := hLocked rfl
          have hTheirs : other.link.held = true := hHeld.trans hOurs
          have hExecuted : Interleaved.executed ⟨now, .holding .execute⟩ .proceed =
              now.link.value.due?.toList := if_pos ⟨rfl, rfl⟩
          rw [hExecuted]
          refine ⟨?_, rfl⟩
          change Node.Noted (other.put other.link.value.execute.2)
            (now.put now.link.value.execute.2) _
          rw [Node.put, Node.put, Lock.set?, Lock.set?, if_pos hOurs, if_pos hTheirs]
          exact ⟨hLink.execute, hHeld, hNode.ready, hNode.expired⟩

/-- One move takes down the executions that it carries out. -/
theorem Noted.step (follows : Follows node state) (here : Noted noted state notes) (move : Move) :
    Noted (noted.step move) (state.step move) (notes ++ state.executed move) := by
  have hStage := here.stage
  by_cases hMove : move = .proceed
  · subst hMove
    exact here.proceed follows
  · have hNothing : state.executed move = [] := if_neg fun both => hMove both.1
    rw [hNothing, List.append_nil]
    cases move with
    | proceed => exact absurd rfl hMove
    | byte byte => exact ⟨here.node.receive byte, hStage⟩
    | silence => exact ⟨here.node.timeout, hStage⟩
    | poll =>
        rw [Interleaved.step, Interleaved.step, hStage, here.node.expired]
        split
        · exact ⟨here.node, rfl⟩
        · exact here
    | lock =>
        rw [Interleaved.step, Interleaved.step, hStage]
        split
        · exact ⟨here.node, rfl⟩
        · exact here

/-- So does a run. -/
theorem Noted.run (flagged : node.Flagged) (prompt : node.Prompt) (follows : Follows node state)
    (here : Noted noted state notes) (moves : List Move) :
    Noted (noted.run moves) (state.run moves) (notes ++ state.executions moves) := by
  induction moves generalizing node state noted notes with
  | nil => exact (List.append_nil notes).symm ▸ here
  | cons move rest ih =>
      obtain ⟨events, serves⟩ := serves_move flagged prompt follows move
      have hRest := ih (Node.flagged_run flagged events) (Node.prompt_run prompt events)
        serves.follows (here.step follows move)
      rw [List.append_assoc] at hRest
      exact hRest

/-- What an interleaving executes is what its command set is told to execute. -/
theorem noted_run (commands : C) (address : UInt8) (moves : List Move) :
    Noted ((start (Noting.fresh commands) address).run moves) ((start commands address).run moves)
      ((start commands address).executions moves) := by
  have here : Noted (start (Noting.fresh commands) address) (start commands address) [] :=
    ⟨Node.noted_start commands address, rfl⟩
  have follows : Follows (.start commands address) (start commands address) := .plain rfl
  exact here.run (Node.flagged_start commands address) (Node.prompt_start commands address) follows
    moves

end Interleaved

namespace Node

variable {C : Type} [CommandSet C]

/-- A poll says which request waits. -/
theorem poll_eq_waiting {node : Node C} (flagged : node.Flagged) (hFree : node.link.held = false) :
    node.poll.1 = node.waiting.map fun found => found.1.header.command := by
  cases hWaiting : node.waiting with
  | none => rw [(poll_of_not_waiting hFree hWaiting).2]; rfl
  | some found =>
      obtain ⟨execution, _, _, _, hPoll⟩ := due?_of_waiting hFree flagged hWaiting
      rw [hPoll]
      rfl

/-- The poll after a poll finds nothing to execute. -/
theorem poll_twice {node : Node C} (flagged : node.Flagged) :
    node.poll.2.poll.1 = none ∧ node.poll.2.due? = none := by
  cases hHeld : node.link.held with
  | true =>
      have hPoll := poll_of_held hHeld
      rw [hPoll, hPoll]
      exact ⟨rfl, due?_of_held hHeld⟩
  | false =>
      cases hWaiting : node.waiting with
      | none =>
          obtain ⟨_, hPoll⟩ := poll_of_not_waiting hHeld hWaiting
          have hCaught : node.catchUp.link.held = false := (held_catchUp node).trans hHeld
          have hNone : node.catchUp.waiting = none := (request?_catchUp node).trans hWaiting
          let after : Node C := { node.catchUp with ready := false }
          have hAfter : after.link.held = false := hCaught
          obtain ⟨hDue, hAgain⟩ := poll_of_not_waiting hAfter hNone
          rw [hPoll]
          exact ⟨congrArg Prod.fst hAgain, hDue⟩
      | some found =>
          obtain ⟨execution, _, _, _, hPoll⟩ := due?_of_waiting hHeld flagged hWaiting
          rw [hPoll]
          exact ⟨rfl, rfl⟩

/-- A poll that finds a request has it executed with the commands and the line as they are, and
leaves what the execution leaves. -/
theorem poll_of_waiting {node : Node C} {noted : Node (Noting C)} {notes : List (Execution C)}
    (here : noted.Noted node notes) (flagged : node.Flagged) (hFree : node.link.held = false)
    {request : Request} {position : Nat} (h : node.waiting = some (request, position)) :
    let execution : Execution C := ⟨node.commands, request,
      ⟨request.header, position, node.address, false, node.link.value.trace⟩⟩
    noted.poll.2.commands.executed = notes ++ [execution] ∧
      node.poll.2 = ⟨⟨execution.link, false⟩, false, false⟩ := by
  intro execution
  have hEqual : node.due? = some execution := due?_eq_some hFree flagged h
  obtain ⟨_, hDue, _, _, hPoll⟩ := due?_of_waiting hFree flagged h
  obtain rfl : execution = _ := Option.some.inj (hEqual.symm.trans hDue)
  refine ⟨?_, congrArg Prod.snd hPoll⟩
  have hNoted := here.poll.link.executed
  rw [hEqual] at hNoted
  exact hNoted

/-- Whatever calls are made on a node, in any order, the requests that its command set is told to
execute are the requests that became ready, in their order, each once and as it was then. What comes
between readiness and the poll changes nothing of a request or of its place in the packet. A poll
says exactly if one waited; it has the commands execute it on the line as they are, leaves what the
execution leaves, and a poll right after it executes nothing. The same holds of interrupts in the
middle of a poll: it finds the flag raised exactly if a request waits, and no interrupt takes that
from it. -/
theorem executed_once (commands : C) (address : UInt8) (events : List Event) :
    let node := (start commands address).run events
    let noted := (start (Noting.fresh commands) address).run events
    noted.mapLink (Link.mapCommands Noting.commands) = node ∧
      noted.commands.executed.map Execution.requested ++ node.waiting.toList =
        (start commands address).readied events ∧
      (∀ execution ∈ noted.commands.executed,
        execution.session.header = execution.request.header) ∧
      (node.waiting ≠ none → ∀ more : List Event, .poll ∉ more →
        (node.run more).waiting = node.waiting) ∧
      (node.link.held = false →
        node.poll.1 = node.waiting.map fun found => found.1.header.command) ∧
      (∀ request position, node.link.held = false → node.waiting = some (request, position) →
        let execution : Execution C := ⟨node.commands, request,
          ⟨request.header, position, node.address, false, node.link.value.trace⟩⟩
        noted.poll.2.commands.executed = noted.commands.executed ++ [execution] ∧
          node.poll.2 = ⟨⟨execution.link, false⟩, false, false⟩) ∧
      (node.poll.2.poll.1 = none ∧
        noted.poll.2.poll.2.commands.executed = noted.poll.2.commands.executed) ∧
      ∀ moves : List Move,
        let state := (Interleaved.start commands address).run moves
        let noted := (Interleaved.start (Noting.fresh commands) address).run moves
        (noted.node.mapLink (Link.mapCommands Noting.commands) = state.node ∧
          noted.stage = state.stage) ∧
        noted.node.commands.executed.map Execution.requested ++ state.node.waiting.toList =
          (Interleaved.start commands address).readied moves ∧
        (state.stage = .asking → (state.node.ready = true ↔ state.node.waiting ≠ none)) ∧
        (state.stage = .holding .execute → state.node.waiting ≠ none) := by
  intro node noted
  have flagged : node.Flagged := flagged_run (flagged_start commands address) events
  have hAccount := account_run (flagged_start commands address) events
  have here : noted.Noted node ((start commands address).executions events) :=
    noted_run commands address events
  have hNotes : noted.commands.executed = (start commands address).executions events :=
    here.link.executed
  obtain ⟨hNone, hDue⟩ := poll_twice flagged
  refine ⟨here.forgets, ?_, ?_, fun hWaiting more hPoll => waiting_run hWaiting hPoll,
    fun hFree => poll_eq_waiting flagged hFree, ?_, ⟨hNone, ?_⟩, ?_⟩
  · rw [hNotes]
    exact hAccount.symm
  · rw [hNotes]
    exact fun execution hMem => (sound_of_mem hMem).1
  · rw [hNotes]
    exact fun request position hFree hWaiting => poll_of_waiting here flagged hFree hWaiting
  · have hAgain := here.poll.poll.link.executed
    rw [hDue, Option.toList_none, List.append_nil] at hAgain
    exact hAgain.trans here.poll.link.executed.symm
  · intro moves state others
    have both : others.Noted state ((Interleaved.start commands address).executions moves) :=
      Interleaved.noted_run commands address moves
    obtain ⟨hAsking, hHolding⟩ := Interleaved.finds commands address moves
    refine ⟨⟨both.node.forgets, both.stage⟩, ?_, hAsking, hHolding⟩
    have hExecuted : others.node.commands.executed = _ := both.node.link.executed
    rw [hExecuted]
    exact Interleaved.account commands address moves

/-- A ping waits while noise and silence come and the lock is taken, and a poll answers it. -/
theorem executed_once_ping :
    let commands : Scripted :=
      ⟨⟨#[], [], [], [], #[]⟩, {}, [(.ping, .execute)], [(.ping, [.send [7]])], #[]⟩
    let events : List Event := [5, 0, 5, 1].map .byte
    let more : List Event := [.byte 9, .silence, .lock, .silence, .unlock]
    let node := (start commands 5).run events
    let noted := (start (Noting.fresh commands) 5).run events
    node.waiting = some (⟨⟨5, 5, .ping⟩, .empty⟩, 4) ∧
      (node.run more).waiting = some (⟨⟨5, 5, .ping⟩, .empty⟩, 4) ∧ node.poll.1 = some .ping ∧
      noted.poll.2.commands.executed.map Execution.requested =
        [(⟨⟨5, 5, .ping⟩, .empty⟩, 4)] ∧
      node.poll.2.link.value.trace.written = [7] := by
  intro commands events more node noted
  have hWaiting : node.waiting = some (⟨⟨5, 5, .ping⟩, .empty⟩, 4) := by decide
  obtain ⟨_, _, _, hKept, hPoll, hExecute, _, _⟩ := executed_once commands 5 events
  obtain ⟨hNoted, hAfter⟩ := hExecute _ _ (by decide) hWaiting
  refine ⟨hWaiting, ?_, ?_, ?_, ?_⟩
  · rw [← hWaiting]
    exact hKept (by decide) more (by decide)
  · exact (hPoll (by decide)).trans (congrArg (Option.map _) hWaiting)
  · rw [hNoted]
    decide
  · rw [hAfter]
    decide

end Node

end Multidrop
