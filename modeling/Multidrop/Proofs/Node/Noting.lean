import Multidrop.Proofs.Node.Event

/-!
A command set that notes what it is asked and what it is told. Its notes are nothing that a framer
or a node looks at, so both do with it what they do with the commands behind it. What a node was
seen to execute is thereby what its command set was told to execute, and nothing that was merely
about to happen.
-/

namespace Multidrop

/-- A command set that notes the headers it was asked about and the requests it executed. -/
structure Noting (C : Type) where
  commands : C
  asked : List Header
  /-- Each request with the commands and the session that it was executed with. -/
  executed : List (Execution C)

namespace Noting

variable {C : Type}

/-- A command set that was not asked about anything yet. -/
def fresh (commands : C) : Noting C :=
  ⟨commands, [], []⟩

instance [CommandSet C] : CommandSet (Noting C) where
  accept noting header :=
    match CommandSet.accept noting.commands header with
    | (choice, commands) => (choice, ⟨commands, noting.asked ++ [header], noting.executed⟩)
  execute noting request session :=
    match CommandSet.execute noting.commands request session with
    | (actions, commands) =>
      (actions, ⟨commands, noting.asked, noting.executed ++ [⟨noting.commands, request, session⟩]⟩)

end Noting

namespace Link

variable {C : Type}

/-- A framer whose commands note what they are told is another one but for the notes, which are
these. -/
structure Noted (noted : Link (Noting C)) (link : Link C) (notes : List (Execution C)) : Prop where
  commands : noted.commands.commands = link.commands
  address : noted.address = link.address
  packet : noted.packet = link.packet
  trace : noted.trace = link.trace
  executed : noted.commands.executed = notes

variable {noted : Link (Noting C)} {link : Link C} {notes : List (Execution C)}

/-- Without its journal the noting link is the link. -/
theorem Noted.forgets (here : Noted noted link notes) :
    noted.mapCommands Noting.commands = link := by
  obtain ⟨commands, address, packet, trace⟩ := noted
  obtain ⟨⟩ := link
  obtain ⟨rfl, rfl, rfl, rfl, _⟩ := here
  rfl

/-- A call to the line adds nothing to the journal. -/
theorem Noted.call (here : Noted noted link notes) (call : Line.Call) :
    Noted (noted.call call) (link.call call) notes :=
  { here with trace := congrArg (·.push call) here.trace }

theorem Noted.endPacket (here : Noted noted link notes) :
    Noted noted.endPacket link.endPacket notes := by
  have hIdle : Noted { noted with packet := .idle } { link with packet := .idle } notes :=
    { here with packet := rfl }
  exact hIdle.call .stopTimer

/-- Nor does a timeout. -/
theorem Noted.timeout (here : Noted noted link notes) : Noted noted.timeout link.timeout notes := by
  unfold Link.timeout
  rw [here.packet]
  split
  · exact here
  · exact here.endPacket

theorem Noted.settle (here : Noted noted link notes) : Noted noted.settle link.settle notes := by
  unfold Link.settle
  rw [here.packet]
  split
  · exact here.call .stopTimer
  · split
    · exact here.endPacket
    · exact here

variable [CommandSet C]

/-- To be asked about a packet is not to execute it. -/
theorem Noted.openPacket (here : Noted noted link notes) (header : Header) :
    Noted (noted.openPacket header) (link.openPacket header) notes := by
  have hAccept : CommandSet.accept noted.commands header =
      ((CommandSet.accept link.commands header).1,
        ⟨(CommandSet.accept link.commands header).2, noted.commands.asked ++ [header],
          noted.commands.executed⟩) := by
    rw [← here.commands]
    rfl
  unfold Link.openPacket
  rw [here.address, hAccept]
  generalize CommandSet.accept link.commands header = accepted
  obtain ⟨choice, after⟩ := accepted
  split
  · cases choice with
    | ignore => exact ⟨rfl, rfl, rfl, here.trace, here.executed⟩
    | execute => exact ⟨rfl, rfl, rfl, here.trace, here.executed⟩
    | collect kind => exact ⟨rfl, rfl, rfl, here.trace, here.executed⟩
  · exact { here with address := rfl, packet := rfl }

/-- Nor does a byte that is counted. -/
theorem Noted.count (here : Noted noted link notes) (byte : UInt8) :
    Noted (noted.count byte) (link.count byte) notes := by
  unfold Link.count
  rw [here.packet]
  cases hPacket : link.packet with
  | ready request position => exact here
  | opening bytes =>
      dsimp only
      split
      · exact { here with packet := rfl }
      · exact here.openPacket _
  | passing header position collector =>
      cases collector with
      | none => exact { here with packet := rfl }
      | some collector =>
          dsimp only
          split
          · exact { here with packet := rfl }
          · exact { here with packet := rfl }

/-- Nor does a byte that comes in. -/
theorem Noted.receive (here : Noted noted link notes) (byte : UInt8) :
    Noted (noted.receive byte) (link.receive byte) notes := by
  unfold Link.receive
  rw [here.packet]
  split
  · exact here
  · exact ((here.call .restartTimer).count byte).settle

/-- What is noted of an execution is the request that was due. -/
theorem Noted.execute (here : Noted noted link notes) :
    Noted noted.execute.2 link.execute.2 (notes ++ link.due?.toList) := by
  obtain ⟨commands, address, packet, trace⟩ := noted
  obtain ⟨⟩ := link
  obtain ⟨rfl, rfl, rfl, rfl, rfl⟩ := here
  dsimp only
  cases packet with
  | ready request position => exact ⟨rfl, rfl, rfl, rfl, rfl⟩
  | opening bytes => exact ⟨rfl, rfl, rfl, rfl, (List.append_nil _).symm⟩
  | passing header position collector => exact ⟨rfl, rfl, rfl, rfl, (List.append_nil _).symm⟩

end Link

namespace Node

variable {C : Type}

/-- A node whose commands note what they are told is another one but for the notes, which are
these. -/
structure Noted (noted : Node (Noting C)) (node : Node C) (notes : List (Execution C)) : Prop where
  link : noted.link.value.Noted node.link.value notes
  held : noted.link.held = node.link.held
  ready : noted.ready = node.ready
  expired : noted.expired = node.expired

/-- A node starts with an empty journal. -/
theorem noted_start (commands : C) (address : UInt8) :
    Noted (start (Noting.fresh commands) address) (start commands address) [] :=
  ⟨⟨rfl, rfl, rfl, rfl, rfl⟩, rfl, rfl, rfl⟩

variable {noted : Node (Noting C)} {node : Node C} {notes : List (Execution C)}

theorem Noted.forgets (here : Noted noted node notes) :
    noted.mapLink (Link.mapCommands Noting.commands) = node := by
  obtain ⟨⟨link, held⟩, ready, expired⟩ := noted
  obtain ⟨⟨other, _⟩, _, _⟩ := node
  obtain ⟨hLink, rfl, rfl, rfl⟩ := here
  have hForgets : link.mapCommands Noting.commands = other := hLink.forgets
  rw [mapLink, hForgets]

theorem Noted.catchUp (here : Noted noted node notes) : Noted noted.catchUp node.catchUp notes := by
  refine ⟨?_, ?_, ?_, ?_⟩
  · rw [link_catchUp, link_catchUp, here.expired]
    split
    · exact here.link.timeout
    · exact here.link
  · rw [held_catchUp, held_catchUp, here.held]
  · rw [ready_catchUp, ready_catchUp, here.ready]
  · rw [expired_catchUp, expired_catchUp]

theorem Noted.timeout (here : Noted noted node notes) : Noted noted.timeout node.timeout notes := by
  have hSame := here.held
  cases hHeld : node.link.held with
  | true =>
      rw [timeout_of_held hHeld, timeout_of_held (hSame.trans hHeld)]
      exact { here with expired := rfl }
  | false =>
      rw [timeout_of_unlocked hHeld, timeout_of_unlocked (hSame.trans hHeld)]
      exact { here with link := here.link.timeout, held := rfl }

theorem Noted.lock (here : Noted noted node notes) : Noted noted.lock node.lock notes := by
  have hSame := here.held
  cases hHeld : node.link.held with
  | true =>
      rw [lock_of_held hHeld, lock_of_held (hSame.trans hHeld)]
      exact here
  | false =>
      rw [lock_of_unlocked hHeld, lock_of_unlocked (hSame.trans hHeld)]
      exact ⟨here.catchUp.link, rfl, here.ready, rfl⟩

variable [CommandSet C]

theorem Noted.receive (here : Noted noted node notes) (byte : UInt8) :
    Noted (noted.receive byte) (node.receive byte) notes := by
  have hSame := here.held
  cases hHeld : node.link.held with
  | true =>
      rw [receive_of_held hHeld, receive_of_held (hSame.trans hHeld)]
      exact here
  | false =>
      have hCaught := here.catchUp.link
      rw [receive_of_unlocked hHeld, receive_of_unlocked (hSame.trans hHeld)]
      refine ⟨hCaught.receive byte, rfl, ?_, rfl⟩
      dsimp only
      rw [here.ready, hCaught.packet, (hCaught.receive byte).packet]

/-- A poll notes the request that was due. -/
theorem Noted.poll (here : Noted noted node notes) :
    Noted noted.poll.2 node.poll.2 (notes ++ node.due?.toList) := by
  have hSame := here.held
  cases hHeld : node.link.held with
  | true =>
      rw [poll_of_held hHeld, poll_of_held (hSame.trans hHeld), due?_of_held hHeld]
      rwa [Option.toList_none, List.append_nil]
  | false =>
      rw [poll_of_unlocked hHeld, poll_of_unlocked (hSame.trans hHeld), due?_of_unlocked hHeld,
        here.ready]
      cases node.ready with
      | true => exact ⟨here.catchUp.link.execute, rfl, rfl, rfl⟩
      | false =>
          rw [if_neg Bool.false_ne_true, if_neg Bool.false_ne_true, if_neg Bool.false_ne_true,
            Option.toList_none, List.append_nil]
          exact ⟨here.catchUp.link, rfl, rfl, rfl⟩

/-- What an event executes is what the commands are told to execute. -/
theorem Noted.step (here : Noted noted node notes) (event : Event) :
    Noted (noted.step event) (node.step event) (notes ++ node.executed event) := by
  cases event with
  | poll => exact here.poll
  | byte byte => exact (List.append_nil notes).symm ▸ here.receive byte
  | silence => exact (List.append_nil notes).symm ▸ here.timeout
  | lock => exact (List.append_nil notes).symm ▸ here.lock
  | unlock => exact (List.append_nil notes).symm ▸ { here with held := rfl }

/-- A run takes down exactly what it executes, in order. -/
theorem Noted.run (here : Noted noted node notes) (events : List Event) :
    Noted (noted.run events) (node.run events) (notes ++ node.executions events) := by
  induction events generalizing noted node notes with
  | nil => exact (List.append_nil notes).symm ▸ here
  | cons event rest ih =>
      have hRest := ih (here.step event)
      rw [List.append_assoc] at hRest
      exact hRest

/-- The requests that a node executes are the ones that its command set is told to execute, in the
same order and with the same commands and line. -/
theorem noted_run (commands : C) (address : UInt8) (events : List Event) :
    Noted ((start (Noting.fresh commands) address).run events) ((start commands address).run events)
      ((start commands address).executions events) :=
  (noted_start commands address).run events

end Node

end Multidrop
