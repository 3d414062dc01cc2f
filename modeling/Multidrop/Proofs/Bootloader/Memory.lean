import Multidrop.Proofs.Bootloader.Update
import Multidrop.Proofs.Host.Observation
import Multidrop.Proofs.Reply

/-!
Reading the memory of a node from the host. The node counts words from the length that the packet
declares and the host counts bytes from what it asked for; both come to the same, and so do the
checksums they compute. A host believes no memory that does not come with its checksum.
-/

namespace Multidrop

namespace Bootloader

/-- A word of flash that can be read is what stands there if the whole of it lies in flash, and
zeros if not. -/
theorem wordAt_eq {flash : Flash} (readable : flash.Readable)
    (hSize : flash.bytes.size = Layout.flashSize) (address : UInt32) :
    wordAt flash address =
      if Layout.flashBase ≤ address.toNat ∧
          address.toNat + 4 ≤ Layout.flashBase + Layout.flashSize then
        flash.slice (address.toNat - Layout.flashBase) 4
      else List.replicate 4 0 := by
  rw [wordAt, Layout.flashOffset?]
  by_cases hFlash : Layout.flashBase ≤ address.toNat ∧
      address.toNat - Layout.flashBase < Layout.flashSize
  · rw [if_pos hFlash]
    dsimp only
    by_cases hInside : address.toNat - Layout.flashBase + 4 ≤ Layout.flashSize
    · rw [if_pos hInside, readable.read (by rw [hSize]; exact hInside), if_pos (by omega)]
    · rw [if_neg hInside, if_neg (by omega)]
      rfl
  · rw [if_neg hFlash, if_neg (by omega)]
    rfl

/-- So many words of memory, as the node sends them. -/
def memoryFrom (flash : Flash) (location : UInt32) (count : Nat) : List UInt8 :=
  ((List.range count).map fun i => wordAt flash (location + 4 * UInt32.ofNat i)).flatten

/-- Each word is four bytes. -/
theorem length_memoryFrom (flash : Flash) (location : UInt32) (count : Nat) :
    (memoryFrom flash location count).length = 4 * count :=
  length_flatten_wordAt flash location count

/-- Each word of the memory stands in its place. -/
theorem word_memoryFrom (flash : Flash) (location : UInt32) {count k : Nat} (h : k < count) :
    ((memoryFrom flash location count).drop (4 * k)).take 4 =
      wordAt flash (location + 4 * UInt32.ofNat k) := by
  obtain ⟨rest, rfl⟩ : ∃ rest, count = k + (rest + 1) := ⟨count - k - 1, by omega⟩
  have hBefore := length_memoryFrom flash location k
  rw [memoryFrom] at hBefore ⊢
  rw [List.range_add, List.map_append, List.flatten_append, List.drop_left' hBefore,
    List.range_succ_eq_map, List.map_cons, List.map_cons, List.flatten_cons]
  exact List.take_left' (length_wordAt ..)

/-- Locations go on from the beginning after the last one. -/
theorem toNat_location (location : UInt32) (k : Nat) :
    (location + 4 * UInt32.ofNat k).toNat = (location.toNat + 4 * k) % UInt32.size := by
  simp [UInt32.toNat_add, UInt32.toNat_mul]

/-- What the node says when it is asked for so many bytes of memory. -/
theorem readMemory_eq (flash : Flash) (location : UInt32) {session : Session} {size : Nat}
    (hRemaining : session.remaining = size + 4) :
    ∃ pieces : List (List UInt8), readMemory flash location session = pieces.map .send ∧
      pieces.flatten = memoryFrom flash location (size / 4) ++
        toWire (checksum (memoryFrom flash location (size / 4))) := by
  have hCount : (session.remaining - 4) / 4 = size / 4 := by rw [hRemaining, Nat.add_sub_cancel]
  refine ⟨(List.range (size / 4)).map (fun i => wordAt flash (location + 4 * UInt32.ofNat i)) ++
    [toWire (checksum (memoryFrom flash location (size / 4)))], ?_, ?_⟩
  · rw [readMemory, hCount, List.map_append]
    rfl
  · rw [List.flatten_append, List.flatten_singleton, memoryFrom]

/-- A request for memory is answered from the flash and changes nothing. -/
theorem execute_memory (bootloader : Bootloader) {header : Header}
    (h : header.command = .readMemory) (location : UInt32) (session : Session) :
    execute bootloader ⟨header, .memory location⟩ session =
      (readMemory bootloader.flash location session, bootloader) := by
  simp only [execute, h]

end Bootloader

namespace Session

theorem address_run_sends (session : Session) (pieces : List (List UInt8)) :
    (session.run (pieces.map .send)).address = session.address := by
  induction pieces generalizing session with
  | nil => rfl
  | cons piece rest ih => exact (ih (session.send piece)).trans (session.address_send piece)

end Session

namespace Network

variable {C : Type} [CommandSet C] {network : Network (Node C)} {commands : C} {address : UInt8}
  {packet : Packet}

/-- Replies that wait can be received piece by piece. -/
theorem Hosts.gives_front {first rest : List UInt8}
    (hosts : Hosts network commands address packet (first ++ rest).toArray) :
    ∃ next, Gives network (Host.receiveExactly first.length) first next ∧
      Hosts next commands address packet rest.toArray := by
  obtain ⟨hBytes, hNext⟩ := hosts.receive first.length
  have hFirst : ((first ++ rest).toArray.extract 0 first.length).toList = first := by simp
  have hRest : (first ++ rest).toArray.extract first.length (first ++ rest).toArray.size =
      rest.toArray := by simp
  have hReceive := Network.gives_receive network first.length
  rw [hBytes, hFirst, List.take_length] at hReceive
  rw [hRest] at hNext
  refine ⟨_, hReceive.bind ?_, hNext⟩
  rw [if_neg (by omega), if_neg (Nat.lt_irrefl _)]
  exact .pure first

variable {bus : Network (Node Bootloader)} {bootloader : Bootloader} {target : UInt8}

/-- The node answers with the words asked for and their checksum, which are all received. -/
theorem Hosts.gives_memory (hosts : Hosts bus bootloader address .idle #[])
    (hTarget : target = broadcast ∨ target = address) (location : UInt32) {size : Nat}
    (hWhole : size % 4 = 0) (hSize : size ≤ Layout.pageSize) :
    ∃ between next,
      Gives bus (Host.request target .readMemory (toWire location) (size + 4)) () between ∧
      between.replies.size = size + 4 ∧
      Gives bus (Host.readMemory target location size)
        (Bootloader.memoryFrom bootloader.flash location (size / 4)) next ∧
      Hosts next bootloader address .idle #[] := by
  have hLocation : (toWire location).length = 4 := length_toWire location
  have hFits : exchangeLength (toWire location).length (size + 4) ≤ 65535 := by
    rw [hLocation, exchangeLength, Header.size]
    simp only [Layout.pageSize] at hSize
    omega
  have formed : (Incoming.ofRequest target .readMemory .memory (toWire location) (size + 4)
      (.memory location)).WellFormed :=
    Incoming.wellFormed_ofRequest (by simp) hLocation hFits
      (congrArg (some ∘ Payload.memory) (ofWire_toWire location))
  obtain ⟨between, hRequest, executed⟩ := hosts.gives_request formed hFits hTarget rfl
  generalize hBytes : Bootloader.memoryFrom bootloader.flash location (size / 4) = bytes
  have hLength : bytes.length = size := by
    rw [← hBytes, Bootloader.length_memoryFrom]
    omega
  have hAnswered : Hosts between bootloader address .idle
      (bytes ++ toWire (checksum bytes)).toArray := by
    refine executed.hosts fun session hHeader hPosition _ hFirst => ?_
    -- What the packet declares beyond the request is what the host waits for.
    have hRemaining : session.remaining = size + 4 := by
      rw [Session.remaining, hHeader, hPosition, Incoming.toNat_length_ofRequest hFits,
        Incoming.length_bytes]
      exact Nat.add_sub_cancel_left ..
    obtain ⟨pieces, hPieces, hSaid⟩ :=
      Bootloader.readMemory_eq bootloader.flash location hRemaining
    refine ⟨pieces.map .send, ?_, ?_, session.address_run_sends pieces⟩
    · rw [← hPieces]
      exact bootloader.execute_memory rfl location session
    · rw [(session.run_spec _).1, hFirst, Session.reply_sends, hSaid, hBytes, List.nil_append]
  obtain ⟨middle, hFirst, hMiddle⟩ := hAnswered.gives_front
  rw [← List.append_nil (toWire (checksum bytes))] at hMiddle
  obtain ⟨next, hLast, hNext⟩ := hMiddle.gives_front
  have hSum : (toWire (checksum bytes)).length = 4 := length_toWire (checksum bytes)
  rw [hLength] at hFirst
  rw [hSum] at hLast
  refine ⟨between, next, hRequest, ?_, ?_, hNext⟩
  · rw [hAnswered.1, List.size_toArray, List.length_append, hLength, hSum]
  · rw [Host.readMemory, if_neg (by omega)]
    refine hRequest.bind (hFirst.bind (hLast.bind ?_))
    dsimp only
    rw [ofWire_toWire, if_pos rfl]
    exact .pure bytes

end Network

/-! ## Whatever the transport answers -/

namespace Host

/-- A request that went out is one transmission. -/
theorem does_request (node : UInt8) (command : Command) (payload : List UInt8) (reply : Nat) :
    Does (request node command payload reply) fun outcome deeds =>
      outcome = .ok () → ∃ bytes, packet node command payload reply = .ok bytes ∧
        deeds = [.transmitted bytes (.ok ())] := by
  unfold request
  cases packet node command payload reply with
  | error error => exact does_throw error nofun
  | ok bytes =>
      refine (does_transmit bytes).mono fun outcome deeds hDeeds hOk => ⟨bytes, rfl, ?_⟩
      rw [hDeeds, hOk]

/-- What was received in full is one reading of that length. -/
theorem does_receiveExactly (size : Nat) :
    Does (receiveExactly size) fun outcome deeds => ∀ bytes, outcome = .ok bytes →
      deeds = [.received (.ok bytes)] ∧ bytes.length = size := by
  refine (does_receive size).bind (fun error deeds _ => nofun) fun found deeds hReceived => ?_
  obtain ⟨rfl, hShort⟩ := hReceived
  have hShort := hShort found rfl
  split
  · exact does_throw _ nofun
  · split
    · exact does_throw _ nofun
    · refine does_pure found fun bytes hSame => ?_
      obtain rfl := Except.ok.inj hSame
      exact ⟨rfl, by omega⟩

/-- Memory is believed only if its checksum comes right after it. -/
theorem does_readMemory (node : UInt8) (location : UInt32) (size : Nat) :
    Does (readMemory node location size) fun outcome deeds => ∀ bytes, outcome = .ok bytes →
      ∃ request, packet node .readMemory (toWire location) (size + 4) = .ok request ∧
        deeds = [.transmitted request (.ok ()), .received (.ok bytes),
          .received (.ok (toWire (checksum bytes)))] ∧ bytes.length = size := by
  unfold readMemory
  split
  · exact does_throw _ nofun
  · refine (does_request node .readMemory (toWire location) (size + 4)).bind
      (fun error deeds _ => nofun) fun _ deeds hRequest => ?_
    obtain ⟨request, hPacket, rfl⟩ := hRequest rfl
    refine (does_receiveExactly size).bind (fun error deeds _ => nofun) fun found deeds hFound => ?_
    obtain ⟨rfl, hLength⟩ := hFound found rfl
    refine (does_receiveExactly 4).bind (fun error deeds _ => nofun) fun sum deeds hReceived => ?_
    obtain ⟨rfl, hFour⟩ := hReceived sum rfl
    dsimp only
    split
    case isTrue hSum =>
        refine does_pure found fun bytes hSame => ?_
        obtain rfl := Except.ok.inj hSame
        rw [← hSum, toWire_ofWire_word sum hFour]
        exact ⟨request, hPacket, rfl, hLength⟩
    case isFalse => exact does_throw _ nofun

end Host

/-- Memory of a bootloader is read as it is, whatever the flash holds and wherever the host wants to
read. Each word is what stands in flash if the whole of it lies there, and zeros if not; addresses
wrap. The node says the words and four bytes more, and nothing of it changes. Whatever is on the
other side, a host takes no bytes for memory that were not followed by their checksum. -/
theorem memory_read (master : Master) {node : Node Bootloader} (idle : node.Idle)
    (readable : node.commands.flash.Readable)
    (hFlash : node.commands.flash.bytes.size = Layout.flashSize) {target : UInt8}
    (hTarget : target = broadcast ∨ target = node.address) (location : UInt32) {size : Nat}
    (hWhole : size % 4 = 0) (hSize : size ≤ 1024) :
    (∃ (between network : Network (Node Bootloader)) (after : Node Bootloader)
        (bytes : List UInt8),
      (Network.plug master node).Gives
        (Host.request target .readMemory (toWire location) (size + 4)) () between ∧
      between.replies.size = size + 4 ∧
      (Network.plug master node).Gives (Host.readMemory target location size) bytes network ∧
      network.replies = #[] ∧ network.stations = #[after] ∧ after.commands = node.commands ∧
      after.address = node.address ∧ bytes.length = size ∧
      ∀ k place, 4 * k < size → place = (location.toNat + 4 * k) % UInt32.size →
        (bytes.drop (4 * k)).take 4 =
          if Layout.flashBase ≤ place ∧ place + 4 ≤ Layout.flashBase + Layout.flashSize then
            node.commands.flash.slice (place - Layout.flashBase) 4
          else List.replicate 4 0) ∧
      ∀ (target : UInt8) (location : UInt32) (size : Nat),
        Host.Does (Host.readMemory target location size) fun outcome deeds =>
          ∀ bytes, outcome = .ok bytes → ∃ request,
            Host.packet target .readMemory (toWire location) (size + 4) = .ok request ∧
            deeds = [.transmitted request (.ok ()), .received (.ok bytes),
              .received (.ok (toWire (checksum bytes)))] ∧ bytes.length = size := by
  obtain ⟨between, network, hRequest, hSaid, hGives, hReplies, after, hNode, shows⟩ :=
    (Network.hosts_plug idle master).gives_memory hTarget location hWhole hSize
  refine ⟨⟨between, network, after, _, hRequest, hSaid, hGives, hReplies, hNode, shows.commands,
    shows.address, ?_, ?_⟩, ?_⟩
  · rw [Bootloader.length_memoryFrom]
    omega
  · rintro k place hInside rfl
    rw [Bootloader.word_memoryFrom _ _ (by omega), Bootloader.wordAt_eq readable hFlash,
      Bootloader.toNat_location]
  · exact Host.does_readMemory

/-- The word before the flash reads as zeros, and the first one of the flash as it is. -/
theorem memory_read_edge :
    ∃ (network : Network (Node Bootloader)) (bytes : List UInt8),
      (Network.plug .bytewise usedNode).Gives (Host.readMemory 3 0x07FFFFFC 8) bytes network ∧
      bytes.take 4 = [0, 0, 0, 0] ∧
      (bytes.drop 4).take 4 = usedNode.commands.flash.slice 0 4 := by
  have readable : usedNode.commands.flash.Readable := by
    intro fault hMem
    cases hMem
  have hFlash : usedNode.commands.flash.bytes.size = Layout.flashSize := Array.size_replicate
  have hWhole : 8 % 4 = 0 := by decide
  have hSize : 8 ≤ 1024 := by decide
  obtain ⟨⟨_, network, _, bytes, _, _, hGives, _, _, _, _, _, hWords⟩, _⟩ :=
    memory_read .bytewise (Node.idle_start _ 3 : usedNode.Idle) readable hFlash (.inr rfl)
      0x07FFFFFC hWhole hSize
  refine ⟨network, bytes, hGives, ?_, ?_⟩
  · have hFirst := hWords 0 0x07FFFFFC (by decide) (by decide)
    rwa [if_neg (by decide)] at hFirst
  · have hSecond := hWords 1 0x08000000 (by decide) (by decide)
    rwa [if_pos (by decide)] at hSecond

end Multidrop
