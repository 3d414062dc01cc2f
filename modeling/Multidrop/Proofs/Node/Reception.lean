import Multidrop.Node.Link
import Multidrop.Proofs.Packed

/-!
How a request comes in. The state of a framer in the middle of a packet is computed from the bytes
that have come; a byte takes the state of the bytes before it to the state of the bytes with it, and
the last one makes the request ready.
-/

namespace Multidrop

/-- A packet is for all nodes or for one. -/
theorem Header.targets_iff {header : Header} {address : UInt8} :
    header.targets address = true ↔ header.address = broadcast ∨ header.address = address := by
  rw [targets, Bool.or_eq_true, beq_iff_eq, beq_iff_eq]

/-- A header starts with its length. -/
theorem ofDigits_length (header : Header) :
    ofDigits ((toWire header).take 2) = header.length.toNat := by
  have hLength : (toWire header.length).length = 2 := length_toWire header.length
  have hWire : toWire header = toWire header.length ++ (toWire header.address ++
      toWire header.command) := Header.pack_eq .little header
  rw [hWire, List.take_left' hLength]
  change ofDigits (digits 2 header.length.toNat) = _
  have hSmall : header.length.toNat < Nat.pow 256 2 := header.length.toNat_lt
  rw [ofDigits_digits, Nat.mod_eq_of_lt hSmall]

namespace Collector

/-- A collector takes bytes as long as it has room for them. -/
theorem push_toArray (kind : PayloadKind) (bytes : List UInt8) (byte : UInt8) :
    (⟨kind, bytes.toArray⟩ : Collector).push byte =
      ⟨kind, (if bytes.length < kind.capacity then bytes ++ [byte] else bytes).toArray⟩ := by
  rw [push, List.size_toArray]
  split
  · rw [List.push_toArray]
  · rfl

/-- A payload of a fixed size is complete when that many bytes of it have come. -/
theorem isComplete_of_fixed {collector : Collector} (fixed : ∀ wide, collector.kind ≠ .leds wide)
    (position : Nat) (header : Header) :
    collector.isComplete position header =
      decide (collector.kind.capacity ≤ collector.bytes.size) := by
  unfold isComplete
  split
  · next wide hKind => exact absurd hKind (fixed wide)
  · rfl

end Collector

namespace Packet

/-- The packet on the line after some of its bytes, if its payload is collected. -/
def part (header : Header) (kind : PayloadKind) (bytes : List UInt8) : Packet :=
  if bytes.length < Header.size then opening bytes
  else passing header bytes.length (some ⟨kind, (bytes.drop Header.size).toArray⟩)

@[simp] theorem isReady_part (header : Header) (kind : PayloadKind) (bytes : List UInt8) :
    (part header kind bytes).isReady = false := by
  unfold part
  split <;> rfl

@[simp] theorem part_nil (header : Header) (kind : PayloadKind) : part header kind [] = idle :=
  rfl

/-- Before as many bytes have come as the header declares, the packet is not over. -/
theorem isOver_part {header : Header} {kind : PayloadKind} {payload bytes : List UInt8}
    (hPrefix : bytes <+: toWire header ++ payload) (hLength : bytes.length < header.length.toNat) :
    (part header kind bytes).isOver = false := by
  unfold part
  split
  case isTrue hOpening =>
      unfold isOver declared?
      by_cases hKnown : 2 ≤ bytes.length
      · have hTake : bytes.take 2 = (toWire header).take 2 := by
          obtain ⟨rest, hRest⟩ := hPrefix
          have hFront : (bytes ++ rest).take 2 = bytes.take 2 :=
            List.take_append_of_le_length hKnown
          rw [← hFront, hRest, List.take_append_of_le_length (by rw [length_toWire]; decide)]
        simp only [hKnown, if_true, hTake, ofDigits_length, position]
        exact decide_eq_false (Nat.not_le_of_lt hLength)
      · simp only [hKnown, if_false]
  case isFalse => exact decide_eq_false (Nat.not_le_of_lt hLength)

end Packet

/-- A request whose payload is collected, as bytes and as what they mean. -/
structure Incoming where
  header : Header
  kind : PayloadKind
  payload : List UInt8
  meaning : Payload

namespace Incoming

/-- The bytes of the request on the line. -/
def bytes (incoming : Incoming) : List UInt8 :=
  toWire incoming.header ++ incoming.payload

/-- The request once it is complete. -/
def request (incoming : Incoming) : Request :=
  ⟨incoming.header, incoming.meaning⟩

/-- The payload is as long as its kind takes, the packet declares at least as much, and the payload
has the meaning given. -/
structure WellFormed (incoming : Incoming) : Prop where
  fixed : ∀ wide, incoming.kind ≠ .leds wide
  length : incoming.payload.length = incoming.kind.capacity
  declared : incoming.bytes.length ≤ incoming.header.length.toNat
  meaning : (⟨incoming.kind, incoming.payload.toArray⟩ : Collector).decode? =
    some incoming.meaning

theorem length_bytes (incoming : Incoming) :
    incoming.bytes.length = Header.size + incoming.payload.length := by
  rw [bytes, List.length_append, length_toWire, Header.size_packed]

theorem bytes_ne_nil (incoming : Incoming) : incoming.bytes ≠ [] := by
  intro hNone
  have hLength := incoming.length_bytes
  rw [hNone, List.length_nil, Header.size] at hLength
  omega

end Incoming

namespace Link

variable {C : Type} {link : Link C} {incoming : Incoming}

/-- A packet that is not complete is not over either. -/
theorem settle_of_part {bytes : List UInt8} (formed : incoming.WellFormed)
    (hPrefix : bytes <+: incoming.bytes) (hMore : bytes.length < incoming.bytes.length)
    (h : link.packet = .part incoming.header incoming.kind bytes) : link.settle = link := by
  have hDeclared := formed.declared
  rw [settle, h, Packet.isReady_part, if_neg (by simp),
    Packet.isOver_part hPrefix (by omega), if_neg (by simp)]

theorem capacity_pos (kind : PayloadKind) : 0 < kind.capacity := by
  cases kind <;> simp [PayloadKind.capacity, pagePayload, ledPayload, maxLedValues]

/-- A collector takes one more byte, and decodes the payload with the last one. -/
theorem feed_part {done : List UInt8} (byte : UInt8) (formed : incoming.WellFormed)
    (hRoom : done.length < incoming.payload.length) (position : Nat) :
    (⟨incoming.kind, done.toArray⟩ : Collector).feed byte position incoming.header =
      (⟨incoming.kind, (done ++ [byte]).toArray⟩,
        if incoming.payload.length ≤ done.length + 1 then
          (⟨incoming.kind, (done ++ [byte]).toArray⟩ : Collector).decode? else none) := by
  have hLength := formed.length
  have hPush : (⟨incoming.kind, done.toArray⟩ : Collector).push byte =
      ⟨incoming.kind, (done ++ [byte]).toArray⟩ := by
    rw [Collector.push_toArray, if_pos (hLength ▸ hRoom)]
  have hComplete : (⟨incoming.kind, (done ++ [byte]).toArray⟩ : Collector).isComplete position
      incoming.header = decide (incoming.payload.length ≤ done.length + 1) := by
    rw [Collector.isComplete_of_fixed formed.fixed, hLength, List.size_toArray, List.length_append]
    rfl
  rw [Collector.feed, hPush, hComplete]
  simp

variable [CommandSet C]

/-- A byte in the middle of a packet restarts the timer, is counted, and may end the packet. -/
theorem receive_eq {bytes : List UInt8} (byte : UInt8)
    (h : link.packet = .part incoming.header incoming.kind bytes) :
    link.receive byte = ((link.call .restartTimer).count byte).settle := by
  rw [receive, h, Packet.isReady_part, if_neg (by simp)]

/-- A header that the commands accept starts the collecting of its payload. -/
theorem packet_openPacket (hTargets : incoming.header.targets link.address = true)
    (hAccept : (CommandSet.accept link.commands incoming.header).1 = .collect incoming.kind) :
    (link.openPacket incoming.header).packet =
      .part incoming.header incoming.kind (toWire incoming.header) := by
  have hLength : (toWire incoming.header).length = Header.size := length_toWire incoming.header
  rw [openPacket, if_pos hTargets, Packet.part, if_neg (by omega), hLength,
    List.drop_eq_nil_of_le (Nat.le_of_eq hLength)]
  generalize CommandSet.accept link.commands incoming.header = accepted at hAccept ⊢
  obtain ⟨choice, commands⟩ := accepted
  dsimp only at hAccept
  subst hAccept
  rfl

/-- A byte that is not the last one takes the state of the bytes before it to the state of the bytes
with it. -/
theorem receive_part {bytes : List UInt8} {byte : UInt8} (formed : incoming.WellFormed)
    (hPrefix : bytes ++ [byte] <+: incoming.bytes)
    (hMore : bytes.length + 1 < incoming.bytes.length)
    (hTargets : incoming.header.targets link.address = true)
    (hAccept : (CommandSet.accept link.commands incoming.header).1 = .collect incoming.kind)
    (h : link.packet = .part incoming.header incoming.kind bytes) :
    (link.receive byte).packet = .part incoming.header incoming.kind (bytes ++ [byte]) := by
  have hLength := incoming.length_bytes
  have hNext : (bytes ++ [byte]).length = bytes.length + 1 := by simp
  have hCount : ((link.call .restartTimer).count byte).packet =
      .part incoming.header incoming.kind (bytes ++ [byte]) := by
    have hPacket : (link.call .restartTimer).packet = .part incoming.header incoming.kind bytes := h
    rcases Nat.lt_trichotomy (bytes.length + 1) Header.size with hOpening | hHeader | hPassing
    · -- The header is not complete yet.
      rw [Packet.part, if_pos (by omega)] at hPacket
      rw [count, hPacket]
      dsimp only
      rw [if_pos (by omega), Packet.part, if_pos (by omega)]
    · -- The byte completes the header, and the command set wants the payload.
      have hBytes : bytes ++ [byte] = toWire incoming.header := by
        have hTake := List.prefix_iff_eq_take.mp hPrefix
        rw [hNext, hHeader, Incoming.bytes, List.take_left' (by rw [length_toWire]; rfl)] at hTake
        exact hTake
      rw [Packet.part, if_pos (by omega)] at hPacket
      rw [count, hPacket]
      dsimp only
      rw [if_neg (by omega), hBytes, ofWire_toWire]
      have hOpen : ((link.call .restartTimer).openPacket incoming.header).packet =
          .part incoming.header incoming.kind (toWire incoming.header) :=
        packet_openPacket hTargets hAccept
      exact hOpen
    · -- The byte belongs to the payload.
      have hDrop : (bytes ++ [byte]).drop Header.size = bytes.drop Header.size ++ [byte] :=
        List.drop_append_of_le_length (by omega)
      have hRoom : (bytes.drop Header.size).length + 1 < incoming.payload.length := by
        rw [List.length_drop]
        omega
      have hFed := feed_part byte formed (Nat.lt_of_succ_lt hRoom) (bytes.length + 1)
      rw [if_neg (Nat.not_le_of_lt hRoom), ← hDrop] at hFed
      rw [Packet.part, if_neg (by omega)] at hPacket
      rw [count, hPacket]
      dsimp only
      rw [hFed, Packet.part, if_neg (by omega), hNext]
  have hSettle := settle_of_part formed hPrefix (by omega) hCount
  rw [receive_eq byte h, hSettle, hCount]

/-- The last byte makes the request ready. -/
theorem receive_last {bytes : List UInt8} {byte : UInt8} (formed : incoming.WellFormed)
    (hWhole : bytes ++ [byte] = incoming.bytes)
    (h : link.packet = .part incoming.header incoming.kind bytes) :
    (link.receive byte).packet = .ready incoming.request incoming.bytes.length := by
  have hLength := incoming.length_bytes
  have hPayload : 0 < incoming.payload.length := by
    rw [formed.length]
    exact capacity_pos incoming.kind
  have hBytes : bytes.length + 1 = incoming.bytes.length := by
    rw [← hWhole, List.length_append, List.length_singleton]
  have hRest : (bytes.drop Header.size) ++ [byte] = incoming.payload := by
    have hDrop := congrArg (List.drop Header.size) hWhole
    rw [List.drop_append_of_le_length (by omega), Incoming.bytes,
      List.drop_left' (by rw [length_toWire, Header.size_packed])] at hDrop
    exact hDrop
  have hRoom : (bytes.drop Header.size).length < incoming.payload.length := by
    rw [← hRest, List.length_append, List.length_singleton]
    omega
  have hFed := feed_part byte formed hRoom (bytes.length + 1)
  rw [hRest, if_pos (by rw [← hRest]; simp), formed.meaning] at hFed
  have hPacket : (link.call .restartTimer).packet =
      .passing incoming.header bytes.length
        (some ⟨incoming.kind, (bytes.drop Header.size).toArray⟩) := by
    change link.packet = _
    rw [h, Packet.part, if_neg (by omega)]
  have hCount : ((link.call .restartTimer).count byte).packet =
      .ready incoming.request (bytes.length + 1) := by
    rw [count, hPacket]
    dsimp only
    rw [hFed]
    rfl
  rw [receive_eq byte h, settle, hCount, Packet.isReady, if_pos rfl, ← hBytes]
  exact hCount

end Link

end Multidrop
