import Multidrop.Proofs.Node.Attendance

/-!
The request that waits for a node to execute it, if one does. No silence drops it, also none that
was missed, and while it waits no byte is looked at.
-/

namespace Multidrop

namespace Packet

/-- The request that is ready, and how many bytes of its packet went by. -/
def request? : Packet → Option (Request × Nat)
  | ready request position => some (request, position)
  | _ => none

/-- A packet is ready when it holds a request. -/
theorem isReady_eq (packet : Packet) : packet.isReady = packet.request?.isSome := by
  cases packet <;> rfl

end Packet

namespace Link

variable {C : Type}

/-- A silence takes the line to the time between packets, unless a request waits. -/
theorem request?_timeout (link : Link C) :
    link.timeout.packet.request? = link.packet.request? := by
  obtain ⟨commands, address, packet, trace⟩ := link
  cases packet <;> rfl

/-- Without a request no execution is due. -/
theorem due?_eq_none {link : Link C} (h : link.packet.request? = none) : link.due? = none := by
  obtain ⟨commands, address, packet, trace⟩ := link
  cases packet with
  | ready request position => cases h
  | opening bytes => rfl
  | passing header position collector => rfl

/-- With a request, its execution is due. -/
theorem due?_eq_some {link : Link C} {request : Request} {position : Nat}
    (h : link.packet.request? = some (request, position)) :
    link.due? = some ⟨link.commands, request,
      ⟨request.header, position, link.address, false, link.trace⟩⟩ := by
  obtain ⟨commands, address, packet, trace⟩ := link
  cases packet with
  | ready own count =>
      cases h
      rfl
  | opening bytes => cases h
  | passing header count collector => cases h

variable [CommandSet C]

/-- While a request waits, bytes are not looked at. -/
theorem receive_of_request {link : Link C} (h : link.packet.request? ≠ none) (byte : UInt8) :
    link.receive byte = link := by
  have hReady : link.packet.isReady = true := by
    rw [Packet.isReady_eq, Option.isSome_iff_ne_none]
    exact h
  rw [receive, hReady, if_pos rfl]

end Link

namespace Node

variable {C : Type} {node : Node C}

/-- The request that waits for a poll, and how many bytes of its packet went by. -/
def waiting (node : Node C) : Option (Request × Nat) :=
  node.link.value.packet.request?

/-- A silence that was missed drops no request. -/
theorem request?_catchUp (node : Node C) :
    node.catchUp.link.value.packet.request? = node.waiting := by
  rw [link_catchUp]
  split
  · exact Link.request?_timeout node.link.value
  · rfl

end Node

end Multidrop
