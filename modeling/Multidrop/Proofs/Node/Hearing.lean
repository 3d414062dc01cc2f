import Multidrop.Proofs.Node.Attendance
import Multidrop.Proofs.Node.Framing

/-!
A node that hears a packet while its main loop goes on. Polling it between two bytes changes
nothing, so that what it makes of the packet is what its framer does: it waits with a request, or it
counts the bytes of others.
-/

namespace Multidrop.Node

open Grammar

/-- Bytes that arrive at a node, which is polled in between as often as it likes. -/
inductive Carries : List Event → List UInt8 → Prop where
  | nil : Carries [] []
  | byte {events : List Event} {bytes : List UInt8} (polls : Nat) (byte : UInt8)
      (rest : Carries events bytes) :
      Carries (List.replicate polls .poll ++ .byte byte :: events) (byte :: bytes)

/-- Bytes may come without a poll between them. -/
theorem Carries.bytes (bytes : List UInt8) : Carries (bytes.map .byte) bytes := by
  induction bytes with
  | nil => exact .nil
  | cons byte bytes ih => exact .byte 0 byte ih

variable {C : Type} {node : Node C} {commands : C} {address : UInt8} {packet : Packet}
  {said : List UInt8}

/-- What a node shows has the position of the packet. -/
theorem Shows.position (shows : Shows node commands address packet said) :
    node.position = packet.position := by
  have hPacket := shows.packet
  rw [Node.position, look, lock_of_unlocked shows.unlocked]
  exact congrArg Packet.position hPacket

/-- While a node waits for more, no execution is due. -/
theorem Shows.due?_waiting (shows : Shows node commands address packet said)
    (hWaiting : packet.isReady = false) : node.due? = none := by
  have hPacket := shows.packet
  rw [due?, shows.unlocked, if_neg Bool.false_ne_true]
  generalize node.catchUp = caught at hPacket ⊢
  obtain ⟨⟨⟨set, own, onLine, trace⟩, held⟩, ready, expired⟩ := caught
  dsimp only at hPacket
  subst hPacket
  cases onLine with
  | ready request position => cases hWaiting
  | opening bytes => rfl
  | passing header position collector => rfl

variable [CommandSet C]

/-- A run can be cut in two. -/
theorem run_append (node : Node C) (first second : List Event) :
    node.run (first ++ second) = (node.run first).run second :=
  List.foldl_append

/-- What is executed in a run is what is executed in its two parts. -/
theorem executions_append (node : Node C) (first second : List Event) :
    node.executions (first ++ second) =
      node.executions first ++ (node.run first).executions second := by
  induction first generalizing node with
  | nil => rfl
  | cons event rest ih =>
      rw [List.cons_append, executions, executions, ih, List.append_assoc]
      rfl

/-- A node without a request does nothing when it is polled. -/
theorem Shows.polls (shows : Shows node commands address packet said)
    (hWaiting : packet.isReady = false) (count : Nat) :
    node.executions (List.replicate count .poll) = [] ∧
      Shows (node.run (List.replicate count .poll)) commands address packet said := by
  induction count generalizing node with
  | zero => exact ⟨rfl, shows⟩
  | succ count ih =>
      obtain ⟨hNone, hNext⟩ := ih (shows.poll_waiting hWaiting).2
      refine ⟨?_, hNext⟩
      rw [List.replicate_succ, executions, executed, shows.due?_waiting hWaiting]
      exact hNone

/-- The framer of a node that shows what a packet came to. -/
theorem Shows.follows {start : Link C} {line : Nat → UInt8} {count : Nat}
    (shows : Shows node (start.informed line count) start.address packet start.trace.written) :
    Link.Follows start node.catchUp.link.value line count packet := by
  have kept := kept_catchUp node
  exact ⟨kept.commands.trans shows.commands, kept.address.trans shows.address, shows.packet,
    kept.written.trans shows.said⟩

/-- A byte takes a node one step further in a packet. -/
theorem Shows.receive_next {start : Link C} {line : Nat → UInt8} {count : Nat}
    (hMore : count < max 2 (length line))
    (shows : Shows node (start.informed line count) start.address
      (progress line (start.wanted line) count) start.trace.written) :
    Shows (node.receive (line count)) (start.informed line (count + 1)) start.address
      (progress line (start.wanted line) (count + 1)) start.trace.written := by
  have follows := shows.follows.receive hMore
  rw [receive_of_unlocked shows.unlocked]
  refine ⟨rfl, ?_, follows.commands, follows.address, follows.packet, follows.written⟩
  intro hNow
  dsimp only
  rw [shows.packet, follows.packet, hNow]
  cases hBefore : (progress line (start.wanted line) count).isReady with
  | true => simp [shows.flagged hBefore]
  | false => simp

/-- A node that hears some bytes of a packet executes nothing and comes to where the packet then is,
unless the packet is a request before. -/
theorem Shows.carried {start : Link C} {line : Nat → UInt8} {count : Nat} {events : List Event}
    {bytes : List UInt8} (carries : Carries events bytes)
    (hBytes : bytes = front (fun i => line (count + i)) bytes.length)
    (hWithin : count + bytes.length ≤ max 2 (length line))
    (hWaiting : ∀ size, completion? (length line) (start.wanted line) = some size →
      count + bytes.length ≤ size)
    (shows : Shows node (start.informed line count) start.address
      (progress line (start.wanted line) count) start.trace.written) :
    node.executions events = [] ∧
      Shows (node.run events) (start.informed line (count + bytes.length)) start.address
        (progress line (start.wanted line) (count + bytes.length)) start.trace.written := by
  induction carries generalizing count node with
  | nil => exact ⟨rfl, shows⟩
  | @byte events bytes polls byte rest ih =>
      rw [List.length_cons] at hBytes hWithin hWaiting
      have hMore : count < max 2 (length line) := by omega
      have hHere : (progress line (start.wanted line) count).isReady = false := by
        have hLater : ∀ size, completion? (length line) (start.wanted line) = some size →
            count < size := fun size hSize => by
          have hNext := hWaiting size hSize
          omega
        rw [progress_waiting hLater hMore]
        exact isReady_underway
      obtain ⟨hNone, hPolled⟩ := shows.polls hHere polls
      rw [front_cons] at hBytes
      obtain ⟨rfl, hRest⟩ := List.cons.inj hBytes
      have hShift : (fun i => line (count + (i + 1))) = fun i => line (count + 1 + i) := by
        funext i
        rw [Nat.add_assoc, Nat.add_comm 1]
      have hLength : count + (bytes.length + 1) = count + 1 + bytes.length := by omega
      rw [hLength] at hWithin hWaiting
      rw [hShift] at hRest
      obtain ⟨hRestNone, hNext⟩ := ih hRest hWithin hWaiting (hPolled.receive_next hMore)
      rw [List.length_cons, hLength, executions_append, hNone, run_append]
      exact ⟨hRestNone, hNext⟩

/-- An idle node has heard nothing of a packet yet. -/
theorem Idle.shows_start (idle : node.Idle) (line : Nat → UInt8) :
    Shows node (node.catchUp.link.value.informed line 0) node.catchUp.link.value.address
      (progress line (node.catchUp.link.value.wanted line) 0)
      node.catchUp.link.value.trace.written := by
  have kept := kept_catchUp node
  rw [Link.progress_zero, Link.informed_of_opening (by decide)]
  exact ⟨idle.unlocked, nofun, kept.commands.symm, kept.address.symm, idle.packet,
    kept.written.symm⟩

/-- What an idle node is asked to do with a packet. -/
def wanted (node : Node C) (line : Nat → UInt8) : Accept :=
  node.catchUp.link.value.wanted line

/-- An idle node that hears the first bytes of a packet executes nothing, and counts them, unless
the packet is a request or over. -/
theorem Idle.carried (idle : node.Idle) {line : Nat → UInt8} {events : List Event} {count : Nat}
    (carries : Carries events (front line count)) (hWithin : count ≤ max 2 (length line))
    (hWaiting : ∀ size, completion? (length line) (node.wanted line) = some size → count ≤ size) :
    node.executions events = [] ∧
      Shows (node.run events) (node.catchUp.link.value.informed line count)
        node.catchUp.link.value.address (progress line (node.wanted line) count)
        node.catchUp.link.value.trace.written := by
  have hCarried := (idle.shows_start line).carried carries (by simp)
  rw [length_front, Nat.zero_add] at hCarried
  exact hCarried hWithin hWaiting

/-- A node whose address is another one lets a packet go by: it counts the bytes up to the last one
and is between packets then. -/
theorem Idle.bystander (idle : node.Idle) {bytes heard : List UInt8} {events : List Event}
    (carries : Carries events heard) (hHeard : heard <+: bytes) (hLong : 2 ≤ bytes.length)
    (hDeclared : length (lineOf bytes) = bytes.length)
    (hOthers : ¬(header (lineOf bytes)).targets node.address = true) :
    node.executions (events ++ [.poll]) = [] ∧
      (node.run events).position = if heard.length < bytes.length then heard.length else 0 := by
  have hFront : heard = front (lineOf bytes) heard.length := by
    have hTake := List.prefix_iff_eq_take.mp hHeard
    rw [← front_lineOf bytes, take_front _ hHeard.length_le] at hTake
    exact hTake
  have hAddress : node.catchUp.link.value.address = node.address := (kept_catchUp node).address
  rw [← hAddress] at hOthers
  have hIgnored : node.wanted (lineOf bytes) = .ignore := Link.wanted_of_others hOthers
  have hNever : completion? (length (lineOf bytes)) (node.wanted (lineOf bytes)) = none := by
    rw [hIgnored]
    rfl
  have hWithin : heard.length ≤ max 2 (length (lineOf bytes)) := by
    have hLength := hHeard.length_le
    omega
  rw [hFront] at carries
  obtain ⟨hNone, shows⟩ := idle.carried carries hWithin (by simp [hNever])
  have hPolled := (shows.polls (isReady_progress hNever) 1).1
  refine ⟨by rw [executions_append, hNone]; exact hPolled, shows.position.trans ?_⟩
  by_cases hMore : heard.length < bytes.length
  · rw [progress_waiting (by simp [hNever]) (by omega), position_underway, if_pos hMore]
  · have hOver : max 2 (length (lineOf bytes)) ≤ heard.length := by omega
    rw [progress_over hNever hOver, if_neg hMore]
    rfl

/-- A node that is idle executes a packet that is a request when it is polled after the last byte,
and then it waits for the next one. -/
theorem Idle.served (idle : node.Idle) {line : Nat → UInt8} {size : Nat} {events : List Event}
    (carries : Carries events (front line size))
    (hSize : completion? (length line) (node.wanted line) = some size) :
    ∃ execution : Execution C, node.executions (events ++ [.poll]) = [execution] ∧
      execution.commands = node.catchUp.link.value.informed line size ∧
      execution.request = ⟨header line, payload line (node.wanted line)⟩ ∧
      execution.session.header = header line ∧ execution.session.position = size ∧
      execution.session.address = node.address ∧
      execution.session.trace.written = node.link.value.trace.written ∧
      Shows (node.run (events ++ [.poll])) execution.after
        (execution.session.run execution.actions).address .idle
        (execution.session.run execution.actions).trace.written := by
  have kept := kept_catchUp node
  have hWithin := (Link.bounds_of_wanted hSize).2
  have hWaiting : ∀ last, completion? (length line) (node.wanted line) = some last →
      size ≤ last := by
    intro last hLast
    rw [hSize] at hLast
    exact Nat.le_of_eq (Option.some.inj hLast)
  obtain ⟨hNone, shows⟩ := idle.carried carries (by omega) hWaiting
  rw [progress_ready hSize (Nat.le_refl size)] at shows
  obtain ⟨execution, hDue, hCommands, hRequest, hHeader, hPosition, hAddress, hWritten, hNext⟩ :=
    shows.poll_ready
  refine ⟨execution, ?_, hCommands, hRequest, hHeader, hPosition, hAddress.trans kept.address,
    hWritten.trans kept.written, ?_⟩
  · rw [executions_append, hNone, executions, executed, hDue]
    rfl
  · rw [run_append]
    exact hNext

/-! ## Packets for a node -/

variable {header : Header} {payload : List UInt8} {reply : Nat}

/-- What a node is asked to do with the packet of a request for it or for all nodes. -/
theorem wanted_of_targets (hTargets : header.targets node.address = true)
    (hLength : header.length.toNat = Header.size + payload.length + reply) :
    node.wanted (lineOf (toWire header ++ payload)) =
      (CommandSet.accept node.commands header).1 := by
  have kept := kept_catchUp node
  obtain ⟨hHeader, hDeclared, _⟩ := lineOf_packet header payload
  have hFits : 4 ≤ length (lineOf (toWire header ++ payload)) := by
    rw [hDeclared, hLength, Header.size]
    omega
  have hTargeted : (Grammar.header (lineOf (toWire header ++ payload))).targets
      node.catchUp.link.value.address = true := by
    rw [hHeader, kept.address]
    exact hTargets
  rw [wanted, Link.wanted_of_asked hFits hTargeted, hHeader, kept.commands]
  rfl

/-- A packet that the commands of an idle node want is executed when the node is polled after its
last byte, and then the node waits for the next one. -/
theorem Idle.executes_packet [SteadyCommandSet C] (idle : node.Idle)
    (hTargets : header.targets node.address = true)
    (hLength : header.length.toNat = Header.size + payload.length + reply)
    (hComplete : completion? header.length.toNat (CommandSet.accept node.commands header).1 =
      some (Header.size + payload.length))
    {events : List Event} (carries : Carries events (toWire header ++ payload)) :
    ∃ execution : Execution C, node.executions (events ++ [.poll]) = [execution] ∧
      execution.commands = node.commands ∧
      execution.request = ⟨header, Grammar.payload (lineOf (toWire header ++ payload))
        (CommandSet.accept node.commands header).1⟩ ∧
      execution.session.header = header ∧
      execution.session.position = Header.size + payload.length ∧
      execution.session.address = node.address ∧
      execution.session.trace.written = node.link.value.trace.written ∧
      Shows (node.run (events ++ [.poll])) execution.after
        (execution.session.run execution.actions).address .idle
        (execution.session.run execution.actions).trace.written := by
  obtain ⟨hHeader, hDeclared, _⟩ := lineOf_packet header payload
  have hBytes : (toWire header ++ payload).length = Header.size + payload.length := by
    rw [List.length_append, length_toWire]
    rfl
  have hWanted := wanted_of_targets hTargets hLength
  rw [← front_lineOf (toWire header ++ payload), hBytes] at carries
  obtain ⟨execution, hOne, hCommands, hRequest, hRest⟩ :=
    idle.served carries (by rw [hWanted, hDeclared, hComplete])
  rw [Link.informed_of_steady] at hCommands
  rw [hHeader, hWanted] at hRequest
  rw [hHeader] at hRest
  exact ⟨execution, hOne, hCommands.trans (kept_catchUp node).commands, hRequest, hRest⟩

/-- A packet that the commands of an idle node do not want goes by, and the node waits for the next
one as it did for this one. -/
theorem Idle.ignores_packet [SteadyCommandSet C] (idle : node.Idle)
    (hTargets : header.targets node.address = true)
    (hLength : header.length.toNat = Header.size + payload.length)
    (hIgnored : (CommandSet.accept node.commands header).1 = .ignore)
    {events : List Event} (carries : Carries events (toWire header ++ payload)) :
    node.executions (events ++ [.poll]) = [] ∧
      Shows (node.run (events ++ [.poll])) node.commands node.address .idle
        node.link.value.trace.written := by
  have kept := kept_catchUp node
  obtain ⟨_, hDeclared, _⟩ := lineOf_packet header payload
  have hNoReply : header.length.toNat = Header.size + payload.length + 0 := hLength
  have hNever : completion? (length (lineOf (toWire header ++ payload)))
      (node.wanted (lineOf (toWire header ++ payload))) = none := by
    rw [wanted_of_targets hTargets hNoReply, hIgnored]
    rfl
  have hBytes : (toWire header ++ payload).length = header.length.toNat := by
    rw [List.length_append, length_toWire, hLength]
    rfl
  have hOver : max 2 (length (lineOf (toWire header ++ payload))) = header.length.toNat := by
    rw [hDeclared, hLength, Header.size]
    omega
  rw [← front_lineOf (toWire header ++ payload), hBytes] at carries
  obtain ⟨hNone, shows⟩ := idle.carried carries (Nat.le_of_eq hOver.symm) (by simp [hNever])
  rw [progress_over hNever (Nat.le_of_eq hOver), Link.informed_of_steady] at shows
  obtain ⟨hPolled, hNext⟩ := shows.polls rfl 1
  rw [executions_append, hNone, run_append]
  refine ⟨hPolled, ?_⟩
  rw [kept.commands, kept.address, kept.written] at hNext
  exact hNext

end Multidrop.Node
