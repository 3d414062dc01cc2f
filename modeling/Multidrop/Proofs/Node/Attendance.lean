import Multidrop.Network
import Multidrop.Proofs.Node.Event
import Multidrop.Proofs.Node.Reception

/-!
A node on the bus, as its master has to see it: what it will do with the next byte and what it says
when it is served. Flags that were left behind, such as a silence that was missed, are accounted
for.
-/

namespace Multidrop.Node

variable {C : Type}

/-- A node that is not locked, with its packet as it is once a missed silence is applied and with
what it said since somebody looked. -/
structure Shows (node : Node C) (commands : C) (address : UInt8) (packet : Packet)
    (said : List UInt8) : Prop where
  unlocked : node.link.held = false
  flagged : packet.isReady = true → node.ready = true
  commands : node.commands = commands
  address : node.link.value.address = address
  packet : node.catchUp.link.value.packet = packet
  said : node.link.value.trace.written = said

/-- Whoever looks at what the node said finds nothing new the next time. -/
theorem Shows.takeTrace {node : Node C} {commands : C} {address : UInt8} {packet : Packet}
    {said : List UInt8} (shows : Shows node commands address packet said) :
    node.takeTrace.1.written = said ∧ Shows node.takeTrace.2 commands address packet [] := by
  obtain ⟨hUnlocked, hFlagged, hCommands, hAddress, hPacket, hSaid⟩ := shows
  obtain ⟨⟨⟨set, own, onLine, trace⟩, held⟩, ready, expired⟩ := node
  refine ⟨hSaid, hUnlocked, hFlagged, hCommands, hAddress, ?_, rfl⟩
  cases expired with
  | false => exact hPacket
  | true =>
      cases onLine with
      | ready request position => exact hPacket
      | opening bytes => exact hPacket
      | passing header position collector => exact hPacket

/-- Nothing holds the lock of the node, and between two packets it waits for the next one. -/
structure Idle (node : Node C) : Prop where
  unlocked : node.link.held = false
  packet : node.catchUp.link.value.packet = .idle

/-- An idle node shows an empty line. -/
theorem Idle.shows {node : Node C} (idle : node.Idle) :
    Shows node node.commands node.address .idle node.link.value.trace.written :=
  ⟨idle.unlocked, by simp [Packet.idle, Packet.isReady], rfl, rfl, idle.packet, rfl⟩

/-- A node starts idle. -/
theorem idle_start (commands : C) (address : UInt8) : Idle (start commands address) :=
  ⟨rfl, rfl⟩

/-- A silence in the middle of nothing is nothing. -/
theorem Shows.timeout {node : Node C} {commands : C} {address : UInt8} {said : List UInt8}
    (shows : Shows node commands address .idle said) :
    Shows node.timeout commands address .idle said := by
  have kept := kept_timeout node
  have hPacket := shows.packet
  rw [timeout_of_unlocked shows.unlocked] at kept ⊢
  refine ⟨rfl, by simp [Packet.idle, Packet.isReady],
    kept.commands.trans shows.commands, kept.address.trans shows.address, ?_,
    kept.written.trans shows.said⟩
  obtain ⟨⟨⟨set, own, packet, trace⟩, held⟩, ready, expired⟩ := node
  cases expired with
  | true =>
      cases packet with
      | ready request position => cases hPacket
      | opening bytes => rfl
      | passing header position collector => rfl
  | false =>
      have hIdle : packet = .idle := hPacket
      subst hIdle
      rfl

variable [CommandSet C]

section Steady

variable [SteadyCommandSet C] {node : Node C} {commands : C} {address : UInt8} {incoming : Incoming}
  {said : List UInt8}

/-- A byte shows as what the link makes of it once the node has caught up. -/
theorem Shows.receive {byte : UInt8} {packet next : Packet}
    (shows : Shows node commands address packet said) (hWaiting : packet.isReady = false)
    (h : (node.catchUp.link.value.receive byte).packet = next) :
    Shows (node.receive byte) commands address next said := by
  have kept := kept_receive node byte
  rw [receive_of_unlocked shows.unlocked] at kept ⊢
  refine ⟨rfl, ?_, kept.commands.trans shows.commands, kept.address.trans shows.address, h,
    kept.written.trans shows.said⟩
  intro hNext
  dsimp only
  rw [shows.packet, hWaiting, h, hNext]
  simp

/-- A byte in the middle of a packet for the node makes the part that it holds longer. -/
theorem Shows.receive_part {bytes : List UInt8} {byte : UInt8} (formed : incoming.WellFormed)
    (hPrefix : bytes ++ [byte] <+: incoming.bytes)
    (hMore : bytes.length + 1 < incoming.bytes.length)
    (hTargets : incoming.header.targets address = true)
    (hAccept : (CommandSet.accept commands incoming.header).1 = .collect incoming.kind)
    (shows : Shows node commands address (.part incoming.header incoming.kind bytes) said) :
    Shows (node.receive byte) commands address
      (.part incoming.header incoming.kind (bytes ++ [byte])) said := by
  have kept := kept_catchUp node
  refine shows.receive (Packet.isReady_part ..) ?_
  refine Link.receive_part formed hPrefix hMore ?_ ?_ shows.packet
  · rw [kept.address, shows.address, hTargets]
  · rw [kept.commands]
    exact (congrArg (fun set => (CommandSet.accept set incoming.header).1) shows.commands).trans
      hAccept

/-- With the last byte the packet is ready. -/
theorem Shows.receive_last {bytes : List UInt8} {byte : UInt8} (formed : incoming.WellFormed)
    (hWhole : bytes ++ [byte] = incoming.bytes)
    (shows : Shows node commands address (.part incoming.header incoming.kind bytes) said) :
    Shows (node.receive byte) commands address
      (.ready incoming.request incoming.bytes.length) said :=
  shows.receive (Packet.isReady_part ..) (Link.receive_last formed hWhole shows.packet)

/-- A node that received a part of a request and receives the rest has a request that is ready. -/
theorem Shows.receive_rest {done rest : List UInt8} (formed : incoming.WellFormed)
    (hTargets : incoming.header.targets address = true)
    (hAccept : (CommandSet.accept commands incoming.header).1 = .collect incoming.kind)
    (hSplit : done ++ rest = incoming.bytes) (hMore : rest ≠ [])
    (shows : Shows node commands address (.part incoming.header incoming.kind done) said) :
    Shows (rest.foldl Node.receive node) commands address
      (.ready incoming.request incoming.bytes.length) said := by
  induction rest generalizing done node with
  | nil => exact absurd rfl hMore
  | cons byte rest ih =>
      have hNext : done ++ [byte] ++ rest = incoming.bytes := by
        rw [List.append_assoc]
        exact hSplit
      cases rest with
      | nil => exact shows.receive_last formed (by simpa using hNext)
      | cons second rest =>
          refine ih hNext (by simp) ?_
          refine shows.receive_part formed ⟨_, hNext⟩ ?_ hTargets hAccept
          rw [← hNext]
          simp

end Steady

/-- A node without a request that is ready goes on as before when it is polled. -/
theorem Shows.poll_waiting {node : Node C} {commands : C} {address : UInt8} {packet : Packet}
    {said : List UInt8} (shows : Shows node commands address packet said)
    (hWaiting : packet.isReady = false) :
    node.poll.1 = none ∧ Shows node.poll.2 commands address packet said := by
  obtain ⟨hUnlocked, _, hCommands, hAddress, hPacket, hSaid⟩ := shows
  have kept := kept_catchUp node
  have hSet := kept.commands.trans hCommands
  have hOwn := kept.address.trans hAddress
  have hTrace := kept.written.trans hSaid
  rw [poll_of_unlocked hUnlocked]
  generalize node.catchUp.link.value = caught at hSet hOwn hTrace hPacket ⊢
  obtain ⟨set, own, onLine, trace⟩ := caught
  dsimp only at hSet hOwn hTrace hPacket
  subst hSet hOwn hPacket hTrace
  cases node.ready with
  | false => exact ⟨rfl, rfl, by simp [hWaiting], rfl, rfl, rfl, rfl⟩
  | true =>
      cases onLine with
      | ready request position => cases hWaiting
      | opening bytes => exact ⟨rfl, rfl, by simp [hWaiting], rfl, rfl, rfl, rfl⟩
      | passing header position collector =>
          exact ⟨rfl, rfl, by simp [hWaiting], rfl, rfl, rfl, rfl⟩

/-- A node with a request that is ready executes it when it is polled. -/
theorem Shows.poll_ready {node : Node C} {commands : C} {address : UInt8} {request : Request}
    {position : Nat} {said : List UInt8}
    (shows : Shows node commands address (.ready request position) said) :
    ∃ execution : Execution C, node.due? = some execution ∧ execution.commands = commands ∧
      execution.request = request ∧ execution.session.header = request.header ∧
      execution.session.position = position ∧ execution.session.address = address ∧
      execution.session.trace.written = said ∧
      Shows node.poll.2 execution.after (execution.session.run execution.actions).address .idle
        (execution.session.run execution.actions).trace.written := by
  obtain ⟨hUnlocked, hFlagged, hCommands, hAddress, hPacket, hSaid⟩ := shows
  have kept := kept_catchUp node
  have hSet := kept.commands.trans hCommands
  have hOwn := kept.address.trans hAddress
  have hTrace := kept.written.trans hSaid
  rw [due?_of_unlocked hUnlocked, poll_of_unlocked hUnlocked, hFlagged rfl, if_pos rfl, if_pos rfl]
  generalize node.catchUp.link.value = caught at hSet hOwn hTrace hPacket ⊢
  obtain ⟨set, own, onLine, trace⟩ := caught
  dsimp only at hSet hOwn hTrace hPacket
  subst hSet hOwn hPacket hTrace
  refine ⟨_, rfl, rfl, rfl, rfl, rfl, rfl, rfl, rfl, by simp [Packet.idle, Packet.isReady], rfl, rfl,
    rfl, ?_⟩
  exact Session.written_close _

/-- While bytes come in nothing is executed. -/
theorem executions_bytes (node : Node C) (bytes : List UInt8) (rest : List Event) :
    node.executions (bytes.map .byte ++ rest) = (bytes.foldl receive node).executions rest := by
  induction bytes generalizing node with
  | nil => rfl
  | cons byte bytes ih => exact ih (node.receive byte)

/-- An idle node that receives a request and is then polled executes it. -/
theorem Shows.executions_request [SteadyCommandSet C] {node : Node C} {commands : C}
    {address : UInt8} {incoming : Incoming} {said : List UInt8} (formed : incoming.WellFormed)
    (hTargets : incoming.header.targets address = true)
    (hAccept : (CommandSet.accept commands incoming.header).1 = .collect incoming.kind)
    (shows : Shows node commands address .idle said) (rest : List Event) :
    ∃ (execution : Execution C) (next : Node C),
      node.executions (incoming.bytes.map .byte ++ .poll :: rest) =
        execution :: next.executions rest ∧
      execution.commands = commands ∧ execution.request = incoming.request ∧
      execution.session.position = incoming.bytes.length ∧
      Shows next execution.after (execution.session.run execution.actions).address .idle
        (execution.session.run execution.actions).trace.written := by
  have hReady : Shows (incoming.bytes.foldl Node.receive node) commands address
      (.ready incoming.request incoming.bytes.length) said :=
    Shows.receive_rest formed hTargets hAccept (List.nil_append _) incoming.bytes_ne_nil shows
  obtain ⟨execution, hDue, hCommands, hRequest, _, hPosition, _, _, hNext⟩ := hReady.poll_ready
  refine ⟨execution, _, ?_, hCommands, hRequest, hPosition, hNext⟩
  rw [executions_bytes, executions, executed, hDue]
  rfl

/-- A node that waits for more has nothing to say. -/
theorem Shows.serve_waiting {node : Node C} {commands : C} {address : UInt8} {packet : Packet}
    (shows : Shows node commands address packet []) (hWaiting : packet.isReady = false) :
    ∃ next, Station.serve node = (none, [], next) ∧ Shows next commands address packet [] := by
  obtain ⟨hCommand, hPolled⟩ := shows.poll_waiting hWaiting
  obtain ⟨hSaid, hNext⟩ := hPolled.takeTrace
  refine ⟨node.poll.2.takeTrace.2, ?_, hNext⟩
  change (node.poll.1, node.poll.2.takeTrace.1.written, node.poll.2.takeTrace.2) = _
  rw [hCommand, hSaid]

/-- A node with a request executes it and says what the execution says. -/
theorem Shows.serve_ready {node : Node C} {commands : C} {address : UInt8} {request : Request}
    {position : Nat} (shows : Shows node commands address (.ready request position) []) :
    ∃ execution : Execution C, execution.commands = commands ∧ execution.request = request ∧
      execution.session.header = request.header ∧ execution.session.position = position ∧
      execution.session.address = address ∧ execution.session.trace.written = [] ∧
      ∃ command next, Station.serve node =
          (command, (execution.session.run execution.actions).trace.written, next) ∧
        Shows next execution.after (execution.session.run execution.actions).address .idle [] := by
  obtain ⟨execution, _, hCommands, hRequest, hHeader, hPosition, hAddress, hTrace, hPolled⟩ :=
    shows.poll_ready
  obtain ⟨hSaid, hNext⟩ := hPolled.takeTrace
  refine ⟨execution, hCommands, hRequest, hHeader, hPosition, hAddress, hTrace, node.poll.1,
    node.poll.2.takeTrace.2, ?_, hNext⟩
  change (node.poll.1, node.poll.2.takeTrace.1.written, node.poll.2.takeTrace.2) = _
  rw [hSaid]

end Multidrop.Node
