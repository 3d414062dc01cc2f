import Multidrop.Proofs.Host.Transmission
import Multidrop.Proofs.Node.Hearing
import Multidrop.Proofs.Reply

/-!
Everybody on the bus agrees on where an exchange ends. The host declares a length from its own idea
of the reply, the node answers with what its command makes of the request, and all others only
count; the three come to the same number.
-/

namespace Multidrop

open Grammar

namespace Host

variable {target : UInt8} {bytes : List UInt8}

/-- A packet is a header before its payload, and declares the reply besides its own bytes. -/
theorem packet_spec {command : Command} {payload : List UInt8} {reply : Nat}
    (h : packet target command payload reply = .ok bytes) :
    ∃ header : Header, bytes = toWire header ++ payload ∧ header.address = target ∧
      header.command = command ∧ header.length.toNat = Header.size + payload.length + reply := by
  unfold packet at h
  dsimp only at h
  split at h
  · cases h
  · next hFits =>
      cases h
      refine ⟨_, rfl, rfl, rfl, ?_⟩
      change (UInt16.ofNat (exchangeLength payload.length reply)).toNat = _
      rw [UInt16.toNat_ofNat', Nat.mod_eq_of_lt (by omega), exchangeLength]

/-- A request declares its own bytes and the reply that the host waits for. -/
theorem Requests.spec (requests : Requests target bytes) :
    ∃ (header : Header) (payload : List UInt8) (reply : Nat),
      Expects header.command payload reply ∧ bytes = toWire header ++ payload ∧
        header.address = target ∧ header.length.toNat = Header.size + payload.length + reply := by
  obtain ⟨command, payload, reply, expects, hPacket⟩ := requests
  obtain ⟨header, hBytes, hTarget, rfl, hLength⟩ := packet_spec hPacket
  exact ⟨header, payload, reply, expects, hBytes, hTarget, hLength⟩

end Host

/-! ## What the node asked makes of it -/

/-- A payload of a query is the query of the host. -/
theorem payload_query {line : Nat → UInt8} {query : UInt16}
    (hBody : front (body line) (toWire query).length = toWire query) :
    payload line (.collect .query) = .query (Coded.ofCode query) := by
  have hWire : (ofWire (front (body line) 2) : UInt16) = query := by
    have hLength : (toWire query).length = 2 := length_toWire query
    rw [hLength] at hBody
    rw [hBody, ofWire_toWire]
  exact congrArg (fun query => Payload.query (Coded.ofCode query)) hWire

/-- A host waits for as many bytes as a node has to say about an item. -/
theorem Query.replySize_of_item {item : Query} {size : Nat}
    (h : ∀ fixed, item.itemSize? = some fixed → size = fixed) : item.replySize size = size := by
  cases item with
  | status => exact (h 1 rfl).symm
  | address => exact (h 1 rfl).symm
  | firmwareNameLength => exact (h 1 rfl).symm
  | firmwareVersion => exact (h 4 rfl).symm
  | bootloaderVersion => exact (h 4 rfl).symm
  | firmwareName => rfl
  | unknown => rfl

/-- A payload of the size that its kind takes is complete with the last byte of the packet. -/
theorem completion_of_capacity {line : Nat → UInt8} {kind : PayloadKind} {payload : List UInt8}
    {reply : Nat} (fixed : ∀ wide, kind ≠ .leds wide) (hSize : payload.length = kind.capacity)
    (hLength : length line = Header.size + payload.length + reply) :
    completion? (length line) (.collect kind) = some (Header.size + payload.length) := by
  rw [completion?_fixed fixed, hLength, hSize]
  exact if_pos (Nat.le_add_right ..)

/-- Output values are complete with the last byte of a packet without a reply. -/
theorem completion_of_leds {line : Nat → UInt8} {wide : Bool} {payload : List UInt8}
    (least : 2 ≤ payload.length) (hLength : length line = Header.size + payload.length) :
    completion? (length line) (.collect (.leds wide)) = some (Header.size + payload.length) := by
  rw [completion?, hLength]
  exact if_pos (Nat.add_le_add_left least 4)

/-- A packet is a request with its last byte, and its reply is as long as it leaves room for. -/
def Agrees (size : Request → Nat → Nat) (line : Nat → UInt8) (wanted : Accept)
    (payload : List UInt8) (reply : Nat) : Prop :=
  completion? (length line) wanted = some (Header.size + payload.length) ∧
    size ⟨header line, Grammar.payload line wanted⟩ reply = reply

/-- What both command sets answer agrees with what the host expects. -/
theorem Shared.agrees {line : Nat → UInt8} {payload : List UInt8} {reply : Nat}
    (expects : Host.Expects (header line).command payload reply)
    (hLength : length line = Header.size + payload.length + reply)
    (hBody : front (body line) payload.length = payload)
    (hAccept : Shared.accept (header line) ≠ .ignore) :
    Agrees Shared.replySize line (Shared.accept (header line)) payload reply := by
  generalize hCommand : (header line).command = command at expects
  cases expects with
  | ping =>
      have hExecute : Shared.accept (header line) = .execute := by
        simp only [Shared.accept, hCommand]
      rw [hExecute]
      exact ⟨rfl, by simp only [Shared.replySize, hCommand]⟩
  | data query size fixed =>
      have hCollect : Shared.accept (header line) = .collect .query := by
        simp only [Shared.accept, hCommand]
      rw [hCollect]
      refine ⟨completion_of_capacity (by simp) (length_toWire query) hLength, ?_⟩
      simp only [Shared.replySize, hCommand, payload_query hBody]
      exact Query.replySize_of_item fixed
  | setAddress hSize =>
      have hCollect : Shared.accept (header line) = .collect .address := by
        simp only [Shared.accept, hCommand]
      rw [hCollect]
      exact ⟨completion_of_capacity (by simp) hSize hLength,
        by simp only [Shared.replySize, hCommand, Grammar.payload]⟩
  | eraseConfig =>
      have hExecute : Shared.accept (header line) = .execute := by
        simp only [Shared.accept, hCommand]
      rw [hExecute]
      exact ⟨rfl, by simp only [Shared.replySize, hCommand]⟩
  | _ => exact absurd (by simp only [Shared.accept, hCommand]) hAccept

/-- A bootloader agrees with the host about every packet that it does not ignore. -/
theorem Bootloader.agrees {line : Nat → UInt8} {payload : List UInt8} {reply : Nat}
    (expects : Host.Expects (header line).command payload reply)
    (hLength : length line = Header.size + payload.length + reply)
    (hBody : front (body line) payload.length = payload)
    (hAccept : Bootloader.accept (header line) ≠ .ignore) :
    Agrees Bootloader.replySize line (Bootloader.accept (header line)) payload reply := by
  have hShared := Shared.agrees expects hLength hBody
  generalize hCommand : (header line).command = command at expects
  cases expects with
  | resetToBootloader =>
      have hExecute : accept (header line) = .execute := by simp only [accept, hCommand]
      rw [hExecute]
      exact ⟨rfl, by simp only [replySize, Shared.replySize, hCommand]⟩
  | resetToFirmware =>
      have hExecute : accept (header line) = .execute := by simp only [accept, hCommand]
      rw [hExecute]
      exact ⟨rfl, by simp only [replySize, Shared.replySize, hCommand]⟩
  | readMemory hSize whole =>
      have hCollect : accept (header line) = .collect .memory := by simp only [accept, hCommand]
      rw [hCollect]
      refine ⟨completion_of_capacity (by simp) hSize hLength, ?_⟩
      simp only [replySize, hCommand, Grammar.payload]
      omega
  | flashFirmware hSize =>
      have hCollect : accept (header line) = .collect .page := by simp only [accept, hCommand]
      rw [hCollect]
      exact ⟨completion_of_capacity (by simp) hSize hLength,
        by simp only [replySize, hCommand, Grammar.payload]⟩
  | _ =>
      have hSame : accept (header line) = Shared.accept (header line) := by
        simp only [accept, hCommand]
      obtain ⟨hComplete, hReply⟩ := hShared (by rwa [hSame] at hAccept)
      rw [hSame]
      exact ⟨hComplete, by simpa only [replySize, hCommand] using hReply⟩

/-- A firmware agrees with the host about every packet that it does not ignore. -/
theorem Firmware.agrees {line : Nat → UInt8} {payload : List UInt8} {reply : Nat}
    (expects : Host.Expects (header line).command payload reply)
    (hLength : length line = Header.size + payload.length + reply)
    (hBody : front (body line) payload.length = payload)
    (hAccept : Firmware.accept (header line) ≠ .ignore) :
    Agrees Shared.replySize line (Firmware.accept (header line)) payload reply := by
  have hShared := Shared.agrees expects hLength hBody
  generalize hCommand : (header line).command = command at expects
  cases expects with
  | resetToBootloader =>
      have hExecute : accept (header line) = .execute := by simp only [accept, hCommand]
      rw [hExecute]
      exact ⟨rfl, by simp only [Shared.replySize, hCommand]⟩
  | ledCommit =>
      have hExecute : accept (header line) = .execute := by simp only [accept, hCommand]
      rw [hExecute]
      exact ⟨rfl, by simp only [Shared.replySize, hCommand]⟩
  | ledSet16 least =>
      have hCollect : accept (header line) = .collect (.leds true) := by
        simp only [accept, hCommand] at hAccept ⊢
        split at hAccept
        · next hLong => exact if_pos hLong
        · exact absurd rfl hAccept
      rw [hCollect]
      exact ⟨completion_of_leds least hLength, by simp only [Shared.replySize, hCommand]⟩
  | ledSet8 least =>
      have hCollect : accept (header line) = .collect (.leds false) := by
        simp only [accept, hCommand] at hAccept ⊢
        split at hAccept
        · next hLong => exact if_pos hLong
        · exact absurd rfl hAccept
      rw [hCollect]
      exact ⟨completion_of_leds least hLength, by simp only [Shared.replySize, hCommand]⟩
  | _ =>
      have hSame : accept (header line) = Shared.accept (header line) := by
        simp only [accept, hCommand]
      obtain ⟨hComplete, hReply⟩ := hShared (by rwa [hSame] at hAccept)
      rw [hSame]
      exact ⟨hComplete, hReply⟩

/-! ## What everybody makes of the exchange -/

namespace Node

/-- All idle nodes but those with the given address let an exchange go by. Up to its last byte they
count it, then they are between packets, and they execute nothing. -/
def Overhear (target : UInt8) (exchange : List UInt8) : Prop :=
  ∀ (D : Type) [CommandSet D] (other : Node D), other.Idle → other.address ≠ target →
    ∀ events heard, Carries events heard → heard <+: exchange →
      other.executions (events ++ [.poll]) = [] ∧
        (other.run events).position = if heard.length < exchange.length then heard.length else 0

variable {C : Type} [CommandSet C]

/-- A node that heard a packet and was polled has said as much as the packet declares beyond itself,
so that all others know when the exchange is over. -/
def Ends (node : Node C) (target : UInt8) (packet : List UInt8) (declared : Nat) : Prop :=
  ∀ events, Carries events packet →
    ∃ reply : List UInt8,
      (node.run (events ++ [.poll])).link.value.trace.written =
          node.link.value.trace.written ++ reply ∧
        packet.length + reply.length = declared ∧ Overhear target (packet ++ reply)

/-- Nobody but the node asked minds an exchange that is as long as its packet declares. -/
theorem overhear_of_length {header : Header} {payload reply : List UInt8}
    (hUnicast : header.address ≠ broadcast)
    (hLength : header.length.toNat = (toWire header ++ payload ++ reply).length) :
    Overhear header.address (toWire header ++ payload ++ reply) := by
  intro D _ other idle hOther events heard carries hHeard
  have hWire : (toWire header).length = Header.size := length_toWire header
  rw [List.append_assoc] at hLength hHeard ⊢
  obtain ⟨hHeader, hDeclared, _⟩ := lineOf_packet header (payload ++ reply)
  refine idle.bystander carries hHeard ?_ (hDeclared.trans hLength) ?_
  · rw [List.length_append, hWire, Header.size]
    omega
  · rw [hHeader]
    simp [Header.targets, hUnicast, Ne.symm hOther]

variable {node : Node C} {header : Header} {payload : List UInt8} {reply : Nat}

/-- A node that executes a packet with its last byte ends the exchange where the packet declares. -/
theorem Idle.ends_of_agrees (idle : node.Idle) {size : Request → Nat → Nat}
    (hUnicast : header.address ≠ broadcast) (hAddress : node.address = header.address)
    (hLength : header.length.toNat = Header.size + payload.length + reply)
    (hAgrees : Agrees size (lineOf (toWire header ++ payload))
      (CommandSet.accept node.commands header).1 payload reply)
    (hSize : ∀ execution : Execution C,
      (Session.reply execution.session.remaining execution.actions).length =
        size execution.request execution.session.remaining) :
    node.Ends header.address (toWire header ++ payload) header.length.toNat := by
  intro events carries
  obtain ⟨hHeader, _, _⟩ := lineOf_packet header payload
  have hWanted := wanted_of_targets (Header.targets_iff.mpr (.inr hAddress.symm)) hLength
  obtain ⟨hComplete, hReply⟩ := hAgrees
  have hWire : (toWire header).length = Header.size := length_toWire header
  have hBytes : (toWire header ++ payload).length = Header.size + payload.length := by
    rw [List.length_append, hWire]
  rw [← hWanted] at hComplete hReply
  rw [← front_lineOf (toWire header ++ payload), hBytes] at carries
  obtain ⟨execution, _, _, hRequest, hSession, hPosition, _, hBefore, shows⟩ :=
    idle.served carries hComplete
  obtain ⟨hWritten, _⟩ := execution.session.run_spec execution.actions
  have hRemaining : execution.session.remaining = reply := by
    rw [Session.remaining, hSession, hHeader, hPosition, hLength, Nat.add_sub_cancel_left]
  have hSaid := hSize execution
  rw [hRemaining, hRequest, hReply] at hSaid
  rw [hRemaining] at hWritten
  have hExchange : header.length.toNat =
      (toWire header ++ payload ++ Session.reply reply execution.actions).length := by
    rw [List.length_append, hBytes, hSaid, hLength]
  refine ⟨Session.reply reply execution.actions, ?_, ?_, overhear_of_length hUnicast hExchange⟩
  · rw [shows.said, hWritten, hBefore]
  · rw [hExchange]
    exact List.length_append.symm

/-- A node that ignores a packet without a reply ends the exchange with it. -/
theorem Idle.ends_of_ignored [SteadyCommandSet C] (idle : node.Idle)
    (hUnicast : header.address ≠ broadcast) (hAddress : node.address = header.address)
    (hLength : header.length.toNat = Header.size + payload.length)
    (hIgnored : (CommandSet.accept node.commands header).1 = .ignore) :
    node.Ends header.address (toWire header ++ payload) header.length.toNat := by
  intro events carries
  have hBytes : (toWire header ++ payload).length = header.length.toNat := by
    rw [List.length_append, length_toWire, hLength]
    rfl
  have hTargets : header.targets node.address = true :=
    Header.targets_iff.mpr (.inr hAddress.symm)
  obtain ⟨_, shows⟩ := idle.ignores_packet hTargets hLength hIgnored carries
  have hExchange : header.length.toNat = (toWire header ++ payload ++ []).length := by
    rw [List.append_nil, hBytes]
  exact ⟨[], by rw [shows.said, List.append_nil], hBytes, overhear_of_length hUnicast hExchange⟩

/-- A node ends the exchange of a packet that it handles, or that has no reply. -/
theorem Idle.ends [SteadyCommandSet C] (idle : node.Idle) {size : Request → Nat → Nat}
    (hUnicast : header.address ≠ broadcast) (hAddress : node.address = header.address)
    (hLength : header.length.toNat = Header.size + payload.length + reply)
    (hHandled : (CommandSet.accept node.commands header).1 ≠ .ignore ∨
      header.length.toNat = (toWire header ++ payload).length)
    (hAgrees : (CommandSet.accept node.commands header).1 ≠ .ignore →
      Agrees size (lineOf (toWire header ++ payload))
        (CommandSet.accept node.commands header).1 payload reply)
    (hSize : ∀ execution : Execution C,
      (Session.reply execution.session.remaining execution.actions).length =
        size execution.request execution.session.remaining) :
    node.Ends header.address (toWire header ++ payload) header.length.toNat := by
  by_cases hAccept : (CommandSet.accept node.commands header).1 = .ignore
  · have hWhole : header.length.toNat = Header.size + payload.length := by
      rw [hHandled.resolve_left fun hNot => hNot hAccept, List.length_append, length_toWire]
      rfl
    exact idle.ends_of_ignored hUnicast hAddress hWhole hAccept
  · exact idle.ends_of_agrees hUnicast hAddress hLength (hAgrees hAccept) hSize

end Node

/-- Everybody agrees on the end of an exchange. Each packet of a call to one node, if the node has a
command for it or if it declares nothing beyond itself, is answered with as many bytes as it
declares beyond itself. So all other nodes count the exchange up to its last byte, are between
packets then, and execute nothing. -/
theorem exchange_agreed {target : UInt8} (hUnicast : target ≠ broadcast) (asking : Host.Asking)
    (script : Host.Script) {packet : List UInt8}
    (hPacket : packet ∈ Host.transmitted (asking.call target) script) :
    let header : Header := ofWire (packet.take Header.size)
    (∀ node : Node Bootloader, node.Idle → node.address = target →
      (Bootloader.accept header ≠ .ignore ∨ header.length.toNat = packet.length) →
        node.Ends target packet header.length.toNat) ∧
    ∀ node : Node Firmware, node.Idle → node.address = target →
      (Firmware.accept header ≠ .ignore ∨ header.length.toNat = packet.length) →
        node.Ends target packet header.length.toNat := by
  obtain ⟨header, payload, reply, expects, rfl, rfl, hLength⟩ :=
    (asking.transmits.transmitted script packet hPacket).spec
  have hWire : (toWire header).length = Header.size := length_toWire header
  have hHeader : (ofWire ((toWire header ++ payload).take Header.size) : Header) = header := by
    rw [List.take_left' hWire, ofWire_toWire]
  obtain ⟨hFront, hDeclared, hBody⟩ := lineOf_packet header payload
  rw [hHeader]
  rw [← hFront] at expects
  have hLine := hDeclared.trans hLength
  constructor
  · intro node idle hAddress hHandled
    refine idle.ends hUnicast hAddress hLength hHandled (fun hAccept => ?_)
      fun execution => execution.commands.length_reply execution.request execution.session
    have hAgrees := Bootloader.agrees expects hLine hBody (by rwa [hFront])
    rwa [hFront] at hAgrees
  · intro node idle hAddress hHandled
    refine idle.ends hUnicast hAddress hLength hHandled (fun hAccept => ?_)
      fun execution => execution.commands.length_reply execution.request execution.session
    have hAgrees := Firmware.agrees expects hLine hBody (by rwa [hFront])
    rwa [hFront] at hAgrees

/-- Node 5 is asked for its version and answers with the four bytes that the packet has room for. -/
theorem exchange_agreed_version :
    let script : Host.Script := ⟨[], [], #[], #[]⟩
    let node : Node Firmware := .start (.start ⟨#[], [], [], [], #[]⟩ {} [] 0x0102 []) 5
    [10, 0, 5, 2, 3, 0] ∈ Host.transmitted (Host.Asking.firmwareVersion.call 5) script ∧
      node.Idle ∧ node.Ends 5 [10, 0, 5, 2, 3, 0] 10 := by
  intro script node
  have hPacket : [10, 0, 5, 2, 3, 0] ∈
      Host.transmitted (Host.Asking.firmwareVersion.call 5) script := by decide
  have hIdle : node.Idle := Node.idle_start _ _
  have hEnds := (exchange_agreed (by decide) .firmwareVersion script hPacket).2 node hIdle rfl
    (.inl (by decide))
  exact ⟨hPacket, hIdle, hEnds⟩

end Multidrop
