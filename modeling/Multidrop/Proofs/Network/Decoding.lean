import Multidrop.Proofs.Host.Operation
import Multidrop.Proofs.Network.Agreement
import Multidrop.Proofs.Node.Readiness

/-!
From the arguments of a caller to the request that a node executes. The host writes a packet, the
node reads it byte by byte and knows neither the caller nor where the packet ends but by its header;
what is ready with the last byte is what the caller meant.
-/

namespace Multidrop

open Grammar

namespace Host

variable {target : UInt8} {demand : Demand} {bytes payload : List UInt8}

/-- The packet of a demand is a header for its node before its payload, and declares the reply. -/
theorem Demand.Packs.spec (packs : demand.Packs target bytes) :
    ∃ (header : Header) (payload : List UInt8), bytes = toWire header ++ payload ∧
      header.address = target ∧ header.command = demand.command ∧
      header.length.toNat = Header.size + payload.length + demand.reply ∧
      demand.Carried payload := by
  obtain ⟨payload, carried, hPacket⟩ := packs
  obtain ⟨header, hBytes, hTarget, hCommand, hLength⟩ := packet_spec hPacket
  exact ⟨header, payload, hBytes, hTarget, hCommand, hLength, carried⟩

/-- Output values are decoded as the channel to begin with and the values. -/
theorem decode_leds (wide : Bool) (first : UInt16) (values : List UInt8) :
    (⟨.leds wide, (toWire first ++ values).toArray⟩ : Collector).decode? =
      some (.leds ⟨first, wide, values⟩) := by
  have hFirst : (toWire first).length = 2 := length_toWire first
  have hSize : (toWire first ++ values).length = 2 + values.length := by
    rw [List.length_append, hFirst]
  change (Leds.ofBytes? wide (toWire first ++ values).toArray).map Payload.leds = _
  rw [Leds.ofBytes?, List.size_toArray, hSize, if_pos (Nat.le_add_right ..)]
  simp only [List.extract_toArray, List.extract_eq_take_drop, List.drop_zero, Nat.sub_zero,
    List.take_left' hFirst, List.drop_left' hFirst, ofWire_toWire, Nat.add_sub_cancel_left,
    List.take_length, Option.map_some]

/-- A payload that completes its packet is read as its collector reads it. -/
theorem payload_of_decode {line : Nat → UInt8} {kind : PayloadKind} {meaning : Payload}
    (hBody : front (body line) payload.length = payload) (hMost : payload.length ≤ kind.capacity)
    (hWithin : 4 + payload.length ≤ length line)
    (hComplete : completion? (length line) (.collect kind) = some (4 + payload.length))
    (hRead : (⟨kind, payload.toArray⟩ : Collector).decode? = some meaning) :
    Grammar.payload line (.collect kind) = meaning := by
  obtain ⟨_, hDecode⟩ := decode_of_completion hWithin hComplete
  have hCollector : collector line kind (4 + payload.length) = ⟨kind, payload.toArray⟩ := by
    rw [collector, Nat.add_sub_cancel_left, Nat.min_eq_left hMost, hBody]
  rw [hCollector, hRead] at hDecode
  exact (Option.some.inj hDecode).symm

/-- A payload completes its packet with its last byte, and means what was demanded. -/
theorem Demand.Carried.complete {line : Nat → UInt8} (carried : demand.Carried payload)
    (hLength : length line = Header.size + payload.length + demand.reply)
    (hBody : front (body line) payload.length = payload) :
    completion? (length line) demand.command.wanted = some (Header.size + payload.length) ∧
      Grammar.payload line demand.command.wanted = demand.payload := by
  have hWithin : 4 + payload.length ≤ length line := by
    rw [hLength]
    exact Nat.le_add_right ..
  cases carried with
  | alone wanted =>
      rw [wanted]
      exact ⟨rfl, rfl⟩
  | fixed wanted fixed size read =>
      have hComplete := completion_of_capacity fixed size hLength
      rw [wanted]
      exact ⟨hComplete, payload_of_decode hBody (Nat.le_of_eq size) hWithin hComplete read⟩
  | @leds command wide first values wanted few =>
      have hComplete : completion? (length line) (.collect (.leds wide)) = _ :=
        completion_of_leds (length_first_le first values) hLength
      have hMost : (toWire first ++ values).length ≤ (PayloadKind.leds wide).capacity := by
        rw [List.length_append, length_toWire]
        exact Nat.add_le_add_left few 2
      rw [wanted]
      exact ⟨hComplete, payload_of_decode hBody hMost hWithin hComplete
        (decode_leds wide first values)⟩

/-- No values are carried by a channel alone. -/
theorem Demand.Carried.valueless {first : UInt16} {wide : Bool} (carried : demand.Carried payload)
    (h : demand.payload = .leds ⟨first, wide, []⟩) :
    demand.command.wanted = .collect (.leds wide) ∧ demand.reply = 0 ∧ payload.length = 2 := by
  cases carried with
  | alone wanted => cases h
  | @fixed command kind payload meaning reply wanted fixed size read =>
      have hMeaning : meaning = .leds ⟨first, wide, []⟩ := h
      rw [hMeaning] at read
      cases kind with
      | leds wide => exact absurd rfl (fixed wide)
      | query => cases read
      | address => cases read
      | memory => cases read
      | page => cases read
  | leds wanted few =>
      cases h
      refine ⟨wanted, rfl, ?_⟩
      rw [List.append_nil]
      exact length_toWire first

end Host

namespace Node

variable {C : Type} {node : Node C} {packet : List UInt8}

/-- Nothing waits on a node that is idle. -/
theorem Idle.waiting (idle : node.Idle) : node.waiting = none := by
  rw [← request?_catchUp, idle.packet]
  rfl

/-- What waits on a node is the request that is on its line. -/
theorem Shows.waiting {commands : C} {address : UInt8} {onLine : Packet} {said : List UInt8}
    (shows : Shows node commands address onLine said) : node.waiting = onLine.request? := by
  rw [← request?_catchUp, shows.packet]

variable [CommandSet C]

/-- A node makes one request of a packet. It is ready with the last byte of the packet and not
before, however often the node is polled meanwhile, and the next poll executes it. -/
def Takes (node : Node C) (packet : List UInt8) (request : Request) : Prop :=
  ∀ events heard, Carries events heard → heard <+: packet →
    let ready := if heard = packet then [(request, packet.length)] else []
    node.readied events = ready ∧
      (node.executions (events ++ [.poll])).map Execution.requested = ready

/-- A node makes nothing of a packet: it waits for the next one as it did for this one, and did
nothing to the line but to time it. -/
def Passes (node : Node C) (packet : List UInt8) : Prop :=
  ∀ events, Carries events packet →
    node.readied events = [] ∧ node.executions (events ++ [.poll]) = [] ∧
      (node.run events).Idle ∧ Link.Kept node.link.value (node.run events).link.value

/-- What an idle node makes ready and does not execute waits in the end. -/
theorem Idle.readied (idle : node.Idle) {events : List Event} (h : node.executions events = []) :
    node.readied events = (node.run events).waiting.toList := by
  have hAccount := account_run (fun hWaiting => absurd idle.waiting hWaiting) events
  rwa [idle.waiting, h] at hAccount

/-- The bytes that were heard of a packet stand first on the line. -/
theorem front_of_prefix {heard : List UInt8} (h : heard <+: packet) :
    heard = front (lineOf packet) heard.length := by
  have hTake := List.prefix_iff_eq_take.mp h
  rw [← front_lineOf packet, take_front _ h.length_le] at hTake
  exact hTake

/-- An idle node takes a packet that completes a request with its last byte. -/
theorem Idle.takes (idle : node.Idle)
    (hSize : completion? (length (lineOf packet)) (node.wanted (lineOf packet)) =
      some packet.length) :
    node.Takes packet
      ⟨header (lineOf packet), payload (lineOf packet) (node.wanted (lineOf packet))⟩ := by
  intro events heard carries hHeard
  have hFront := front_of_prefix hHeard
  have hLength := hHeard.length_le
  have hWithin := (Link.bounds_of_wanted hSize).2
  have hWaiting : ∀ last, completion? (length (lineOf packet)) (node.wanted (lineOf packet)) =
      some last → heard.length ≤ last := by
    intro last hLast
    rw [hSize] at hLast
    exact Nat.le_trans hLength (Nat.le_of_eq (Option.some.inj hLast))
  rw [hFront] at carries
  obtain ⟨hNone, shows⟩ := idle.carried carries (by omega) hWaiting
  rw [idle.readied hNone, shows.waiting]
  by_cases hWhole : heard = packet
  · rw [hWhole] at carries shows ⊢
    rw [progress_ready hSize (Nat.le_refl _)]
    obtain ⟨execution, hExecutions, _, hRequest, _, hPosition, _⟩ := idle.served carries hSize
    refine ⟨?_, ?_⟩
    · rw [if_pos rfl]
      rfl
    · rw [hExecutions, List.map_singleton, if_pos rfl, Execution.requested, hRequest, hPosition]
  · have hMore : heard.length < packet.length := by
      refine Nat.lt_of_le_of_ne hLength fun hSame => hWhole ?_
      exact hHeard.eq_of_length hSame
    have hLater : ∀ last, completion? (length (lineOf packet)) (node.wanted (lineOf packet)) =
        some last → heard.length < last := by
      intro last hLast
      rw [hSize] at hLast
      exact Nat.lt_of_lt_of_le hMore (Nat.le_of_eq (Option.some.inj hLast))
    rw [progress_waiting hLater (by omega)] at shows ⊢
    have hUnready : (underway (lineOf packet) (node.wanted (lineOf packet)) heard.length).request? =
        none := by
      rw [← Option.not_isSome_iff_eq_none, ← Packet.isReady_eq, isReady_underway]
      exact Bool.false_ne_true
    have hPolled := (shows.polls isReady_underway 1).1
    rw [hUnready, if_neg hWhole, executions_append, hNone]
    exact ⟨rfl, congrArg (List.map Execution.requested) hPolled⟩

/-- A node that ignores a whole packet passes it. -/
theorem Idle.passes [SteadyCommandSet C] (idle : node.Idle)
    (hDeclared : length (lineOf packet) = packet.length) (hLong : 2 ≤ packet.length)
    (hIgnored : node.wanted (lineOf packet) = .ignore) : node.Passes packet := by
  intro events carries
  have hNever : completion? (length (lineOf packet)) (node.wanted (lineOf packet)) = none := by
    rw [hIgnored]
    rfl
  have hOver : max 2 (length (lineOf packet)) = packet.length := by omega
  rw [← front_lineOf packet] at carries
  obtain ⟨hNone, shows⟩ := idle.carried carries (by omega) (by simp [hNever])
  rw [progress_over hNever (Nat.le_of_eq hOver)] at shows
  have hPolled := (shows.polls rfl 1).1
  refine ⟨?_, ?_, ⟨shows.unlocked, shows.packet⟩, kept_run hNone⟩
  · rw [idle.readied hNone, shows.waiting]
    rfl
  · rw [executions_append, hNone]
    exact hPolled

end Node

/-! ## Command sets -/

/-- Whoever handles a command wants of its packets what the command wants. -/
theorem Shared.accept_eq_wanted {header : Header} (h : Shared.accept header ≠ .ignore) :
    Shared.accept header = header.command.wanted := by
  revert h
  unfold accept
  split
  · next hCommand => exact fun _ => by rw [hCommand]; rfl
  · next hCommand => exact fun _ => by rw [hCommand]; rfl
  · next hCommand => exact fun _ => by rw [hCommand]; rfl
  · next hCommand => exact fun _ => by rw [hCommand]; rfl
  · exact fun hIgnored => absurd rfl hIgnored

/-- A bootloader takes the packets that it does not ignore as their command wants it. -/
theorem Bootloader.accept_eq_wanted {header : Header} (h : Bootloader.accept header ≠ .ignore) :
    Bootloader.accept header = header.command.wanted := by
  revert h
  unfold accept
  split
  · next hCommand => exact fun _ => by rw [hCommand]; rfl
  · next hCommand => exact fun _ => by rw [hCommand]; rfl
  · next hCommand => exact fun _ => by rw [hCommand]; rfl
  · next hCommand => exact fun _ => by rw [hCommand]; rfl
  · exact Shared.accept_eq_wanted

/-- A firmware takes the packets that it does not ignore as their command wants it. -/
theorem Firmware.accept_eq_wanted {header : Header} (h : Firmware.accept header ≠ .ignore) :
    Firmware.accept header = header.command.wanted := by
  revert h
  unfold accept
  split
  · next hCommand => exact fun _ => by rw [hCommand]; rfl
  · next hCommand => exact fun _ => by rw [hCommand]; rfl
  · next hCommand =>
      split
      · exact fun _ => by rw [hCommand]; rfl
      · exact fun hIgnored => absurd rfl hIgnored
  · next hCommand =>
      split
      · exact fun _ => by rw [hCommand]; rfl
      · exact fun hIgnored => absurd rfl hIgnored
  · exact Shared.accept_eq_wanted

/-- Two commands carry output values. -/
theorem Command.eq_of_leds {command : Command} {wide : Bool}
    (h : command.wanted = .collect (.leds wide)) : command = .ledSet16 ∨ command = .ledSet8 := by
  cases command with
  | ledSet16 => exact .inl rfl
  | ledSet8 => exact .inr rfl
  | _ => cases h

/-- Bootloaders have no outputs. -/
theorem Bootloader.accept_leds {header : Header} {wide : Bool}
    (h : header.command.wanted = .collect (.leds wide)) : Bootloader.accept header = .ignore := by
  rcases Command.eq_of_leds h with hCommand | hCommand
  · simp only [accept, Shared.accept, hCommand]
  · simp only [accept, Shared.accept, hCommand]

/-- Firmwares want at least one value for their outputs. -/
theorem Firmware.accept_leds {header : Header} {wide : Bool}
    (h : header.command.wanted = .collect (.leds wide)) (hShort : header.length.toNat < 7) :
    Firmware.accept header = .ignore := by
  have hFew := Nat.not_le_of_lt hShort
  rcases Command.eq_of_leds h with hCommand | hCommand
  · exact (@accept_outputs header true hCommand).trans (if_neg hFew)
  · exact (@accept_outputs header false hCommand).trans (if_neg hFew)

/-- Wide values are read as they were written. -/
theorem Firmware.wideValues_flatMap (values : List UInt16) :
    Firmware.wideValues (values.flatMap toWire) = values := by
  induction values with
  | nil => rfl
  | cons value rest ih =>
      change (ofWire (toWire value) : UInt16) :: wideValues (rest.flatMap toWire) = _
      rw [ofWire_toWire, ih]

/-- Six items have a number, and all other numbers mean the same. -/
theorem Query.ofCode_cases (query : UInt16) :
    (1 ≤ query ∧ query ≤ 6 → Coded.code (Coded.ofCode query : Query) = query) ∧
      (¬(1 ≤ query ∧ query ≤ 6) → (Coded.ofCode query : Query) = .unknown) := by
  simp only [Coded.ofCode]
  split
  · exact ⟨fun _ => rfl, fun h => absurd (by decide) h⟩
  · exact ⟨fun _ => rfl, fun h => absurd (by decide) h⟩
  · exact ⟨fun _ => rfl, fun h => absurd (by decide) h⟩
  · exact ⟨fun _ => rfl, fun h => absurd (by decide) h⟩
  · exact ⟨fun _ => rfl, fun h => absurd (by decide) h⟩
  · exact ⟨fun _ => rfl, fun h => absurd (by decide) h⟩
  · next h₁ h₂ h₃ h₄ h₅ h₆ =>
      refine ⟨fun hKnown => ?_, fun _ => rfl⟩
      simp [← UInt16.toNat_inj, UInt16.le_iff_toNat_le] at hKnown h₁ h₂ h₃ h₄ h₅ h₆
      omega

/-! ## Packets -/

/-- A packet that tells its nodes what was demanded. Whoever has a command for it makes one request
of it, which is ready with its last byte, has its header and means what was demanded. -/
structure Host.Demand.Decoded (target : UInt8) (demand : Demand) (packet : List UInt8) : Prop where
  header :
    let header : Header := ofWire (packet.take 4)
    header.address = target ∧ header.command = demand.command ∧
      header.length.toNat = packet.length + demand.reply
  /-- A node with any commands that handles the command as it is meant. -/
  taken : ∀ (C : Type) [CommandSet C] (node : Node C), node.Idle →
    target = broadcast ∨ target = node.address →
    (CommandSet.accept node.commands (ofWire (packet.take 4))).1 = demand.command.wanted →
    node.Takes packet ⟨ofWire (packet.take 4), demand.payload⟩
  bootloader : ∀ node : Node Bootloader, node.Idle → target = broadcast ∨ target = node.address →
    Bootloader.accept (ofWire (packet.take 4)) ≠ .ignore →
    node.Takes packet ⟨ofWire (packet.take 4), demand.payload⟩
  firmware : ∀ node : Node Firmware, node.Idle → target = broadcast ∨ target = node.address →
    Firmware.accept (ofWire (packet.take 4)) ≠ .ignore →
    node.Takes packet ⟨ofWire (packet.take 4), demand.payload⟩
  /-- No outputs are set to no values. -/
  valueless : ∀ first wide, demand.payload = .leds ⟨first, wide, []⟩ →
    (∀ node : Node Bootloader, node.Idle → target = broadcast ∨ target = node.address →
      node.Passes packet) ∧
    ∀ node : Node Firmware, node.Idle → target = broadcast ∨ target = node.address →
      node.Passes packet

namespace Node

variable {C : Type} [CommandSet C] {node : Node C} {header : Header} {payload : List UInt8}

/-- A node with a command for the packet of a demand takes it. -/
theorem Idle.takes_of_carried {demand : Host.Demand} (idle : node.Idle)
    (hTargets : header.targets node.address = true)
    (hLength : header.length.toNat = Header.size + payload.length + demand.reply)
    (carried : demand.Carried payload)
    (hAccept : (CommandSet.accept node.commands header).1 = demand.command.wanted) :
    node.Takes (toWire header ++ payload) ⟨header, demand.payload⟩ := by
  obtain ⟨hHeader, hDeclared, hBody⟩ := lineOf_packet header payload
  obtain ⟨hComplete, hPayload⟩ := carried.complete (hDeclared.trans hLength) hBody
  have hWanted := (wanted_of_targets hTargets hLength).trans hAccept
  have hBytes : (toWire header ++ payload).length = Header.size + payload.length := by
    rw [List.length_append, length_toWire]
    rfl
  have hTakes : node.Takes (toWire header ++ payload) _ :=
    idle.takes (by rw [hWanted, hComplete, hBytes])
  rwa [hHeader, hWanted, hPayload] at hTakes

/-- A node without a command for a packet that has no reply passes it. -/
theorem Idle.passes_of_ignored [SteadyCommandSet C] (idle : node.Idle)
    (hTargets : header.targets node.address = true)
    (hLength : header.length.toNat = Header.size + payload.length)
    (hAccept : (CommandSet.accept node.commands header).1 = .ignore) :
    node.Passes (toWire header ++ payload) := by
  obtain ⟨_, hDeclared, _⟩ := lineOf_packet header payload
  have hNoReply : header.length.toNat = Header.size + payload.length + 0 := hLength
  have hBytes : (toWire header ++ payload).length = Header.size + payload.length := by
    rw [List.length_append, length_toWire]
    rfl
  refine idle.passes ?_ ?_ ((wanted_of_targets hTargets hNoReply).trans hAccept)
  · rw [hDeclared, hLength, hBytes]
  · rw [hBytes, Header.size]
    omega

end Node

/-- The packet of a demand is decoded. -/
theorem Host.Demand.Packs.decoded {target : UInt8} {demand : Demand} {packet : List UInt8}
    (packs : demand.Packs target packet) : demand.Decoded target packet := by
  obtain ⟨header, payload, rfl, rfl, hCommand, hLength, carried⟩ := packs.spec
  have hWire : (toWire header).length = 4 := length_toWire header
  have hHeader : (ofWire ((toWire header ++ payload).take 4) : Header) = header := by
    rw [List.take_left' hWire, ofWire_toWire]
  have hBytes : (toWire header ++ payload).length = Header.size + payload.length := by
    rw [List.length_append, length_toWire]
    rfl
  constructor
  · rw [hHeader, hBytes]
    exact ⟨rfl, hCommand, hLength⟩
  · intro C _ node idle hTarget hAccept
    rw [hHeader] at hAccept ⊢
    exact idle.takes_of_carried (Header.targets_iff.mpr hTarget) hLength carried hAccept
  · intro node idle hTarget hAccept
    rw [hHeader] at hAccept ⊢
    refine idle.takes_of_carried (Header.targets_iff.mpr hTarget) hLength carried ?_
    rw [← hCommand]
    exact Bootloader.accept_eq_wanted hAccept
  · intro node idle hTarget hAccept
    rw [hHeader] at hAccept ⊢
    refine idle.takes_of_carried (Header.targets_iff.mpr hTarget) hLength carried ?_
    rw [← hCommand]
    exact Firmware.accept_eq_wanted hAccept
  · intro first wide hValueless
    obtain ⟨hWanted, hNoReply, hSize⟩ := carried.valueless hValueless
    rw [← hCommand] at hWanted
    rw [hNoReply, Nat.add_zero] at hLength
    constructor
    · intro node idle hTarget
      exact idle.passes_of_ignored (Header.targets_iff.mpr hTarget) hLength
        (Bootloader.accept_leds hWanted)
    · intro node idle hTarget
      have hShort : header.length.toNat < 7 := by
        rw [hLength, hSize]
        decide
      exact idle.passes_of_ignored (Header.targets_iff.mpr hTarget) hLength
        (Firmware.accept_leds hWanted hShort)

/-- Whatever a host is asked to do, it either refuses that as a misuse and transmits nothing, or the
packets that it transmits tell the nodes what it was asked to do: each is decoded by its nodes as
what was demanded next, and all that was demanded is told if the call succeeds. Items beyond the
known ones are one item, wide values and pages are read as the caller gave them. -/
theorem operation_decoded (op : Host.Operation) (target : UInt8) (script : Host.Script) :
    (∀ reason, op.misuse? = some reason →
      (op.call target : Host.Call (StateM Host.Script) Unit).run.run script =
        (.error (.misuse reason), script)) ∧
    (op.misuse? = none → ∃ told done, done <+: op.demands told ∧
      (op.demands told ≠ [] → done ≠ []) ∧
      (((op.call target : Host.Call (StateM Host.Script) Unit).run.run
          { script with packets := #[] }).1.isOk = true → done = op.demands told) ∧
      List.Forall₂ (Host.Demand.Decoded target) done
        (Host.transmitted (op.call target) script)) ∧
    (∀ query : UInt16, (1 ≤ query ∧ query ≤ 6 → Coded.code (Coded.ofCode query : Query) = query) ∧
      (¬(1 ≤ query ∧ query ≤ 6) → (Coded.ofCode query : Query) = .unknown)) ∧
    (∀ values : List UInt16, Firmware.wideValues (values.flatMap toWire) = values) ∧
    ∀ image : Host.Image, ∀ page ∈ image.pages, page.2.length = 1024 ∧
      (Page.ofData page.1 page.2).data.toList = page.2 ∧
      (Page.ofData page.1 page.2).checksum = checksum page.2 := by
  refine ⟨?_, ?_, Query.ofCode_cases, Firmware.wideValues_flatMap, ?_⟩
  · intro reason hMisuse
    rw [Host.Operation.call_of_misuse hMisuse]
    rfl
  · intro hProper
    obtain ⟨packets, hPackets, told, done, hPrefix, hSome, hAll, hPacks⟩ :=
      Host.Operation.sends hProper { script with packets := #[] }
    have hTransmitted : Host.transmitted (op.call target) script = packets := hPackets
    refine ⟨told, done, hPrefix, hSome, hAll, ?_⟩
    rw [hTransmitted]
    exact hPacks.imp fun _ _ packs => packs.decoded
  · intro image page hMem
    have hSize := Host.Image.length_of_mem_pages hMem
    exact ⟨hSize, Page.toList_ofData hSize, rfl⟩

/-- All nodes are asked for an item that means nothing, node 5 is asked to set no outputs, and no
node can have the address 0. -/
theorem operation_decoded_firmware :
    let script : Host.Script := ⟨[.ok [1, 2, 3]], [], #[], #[]⟩
    let node : Node Firmware := .start (.start ⟨#[], [], [], [], #[]⟩ {} [] 0x0102 []) 5
    (Host.transmitted ((Host.Operation.getData 7 3).call broadcast) script =
        [[9, 0, 255, 2, 7, 0]] ∧
      node.Takes [9, 0, 255, 2, 7, 0] ⟨⟨9, 255, .getData⟩, .query .unknown⟩) ∧
    (Host.transmitted ((Host.Operation.ask (.ledSet8 2 [])).call 5) script = [[6, 0, 5, 12, 2, 0]] ∧
      node.Passes [6, 0, 5, 12, 2, 0]) ∧
    ((Host.Operation.ask (.setAddress 0)).call 5 : Host.Call (StateM Host.Script) Unit).run.run
      script = (.error (.misuse .invalidAddress), script) := by
  intro script node
  have idle : node.Idle := Node.idle_start _ _
  have hQuery : Host.transmitted ((Host.Operation.getData 7 3).call broadcast) script =
      [[9, 0, 255, 2, 7, 0]] := by decide
  have hLeds : Host.transmitted ((Host.Operation.ask (.ledSet8 2 [])).call 5) script =
      [[6, 0, 5, 12, 2, 0]] := by decide
  refine ⟨⟨hQuery, ?_⟩, ⟨hLeds, ?_⟩, (operation_decoded _ 5 script).1 _ rfl⟩
  · obtain ⟨told, done, _, _, hAll, hDecoded⟩ :=
      (operation_decoded (.getData 7 3) broadcast script).2.1 rfl
    rw [hAll (by decide), hQuery] at hDecoded
    obtain ⟨decoded, _⟩ := List.forall₂_cons.mp hDecoded
    exact decoded.firmware node idle (.inl rfl) (by decide)
  · obtain ⟨told, done, _, _, hAll, hDecoded⟩ :=
      (operation_decoded (.ask (.ledSet8 2 [])) 5 script).2.1 rfl
    rw [hAll (by decide), hLeds] at hDecoded
    obtain ⟨decoded, _⟩ := List.forall₂_cons.mp hDecoded
    exact (decoded.valueless 2 false rfl).2 node idle (.inr rfl)

end Multidrop
