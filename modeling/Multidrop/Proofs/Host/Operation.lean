import Mathlib.Data.List.Forall2
import Multidrop.Proofs.Bootloader.Request
import Multidrop.Proofs.Host.Transmission

/-!
What the calls of a host demand, packet by packet. A call that is no misuse transmits the packets of
its demands in their order, one after the other, and stops early only if it fails; a misuse
transmits nothing. Each packet carries what the caller gave in a payload that its command reads
back.
-/

namespace Multidrop

/-- What a node that handles a command has to do with its packets. -/
def Command.wanted : Command → Accept
  | ping | eraseConfig | resetToBootloader | resetToFirmware | ledCommit => .execute
  | getData => .collect .query
  | setAddress => .collect .address
  | readMemory => .collect .memory
  | flashFirmware => .collect .page
  | ledSet16 => .collect (.leds true)
  | ledSet8 => .collect (.leds false)
  | nop | unknown => .ignore

/-- The page of some data with their checksum. -/
def Page.ofData (index : UInt16) (data : List UInt8) : Page :=
  ⟨index, Vector.ofFn fun i => data.getD i 0, Multidrop.checksum data⟩

theorem Page.toList_ofData {index : UInt16} {data : List UInt8} (h : data.length = Layout.pageSize) :
    (Page.ofData index data).data.toList = data := by
  apply List.ext_getElem
  · rw [Vector.length_toList, h]
  · intro i _ hIn
    simp [Page.ofData, hIn]

namespace Host

/-- What a packet demands of a node: a command, what its payload means and the size of the reply. -/
structure Demand where
  command : Command
  payload : Payload
  reply : Nat

/-- Anything a host does with a node, whatever it is called with. -/
inductive Operation where
  | ask (asking : Asking)
  /-- Asks for any item in any size. -/
  | getData (query : UInt16) (size : Nat)

/-- What is wrong with the arguments of a call. -/
def Asking.misuse? : Asking → Option Misuse
  | setAddress new => if new = 0 ∨ new = 255 then some .invalidAddress else none
  | readMemory _ size => if size % 4 ≠ 0 ∨ 1024 < size then some .invalidReadLength else none
  | ledSet16 _ values => if 1024 < values.length then some .tooManyValues else none
  | ledSet8 _ values => if 1024 < values.length then some .tooManyValues else none
  | getData _ size _ => if 65535 < 6 + size then some .packetTooLong else none
  | _ => none

/-- The demands of a call to a node whose name is told to have so many bytes. -/
def Asking.demands (told : UInt8) : Asking → List Demand
  | ping => [⟨.ping, .empty, 1⟩]
  | status => [⟨.getData, .query .status, 1⟩]
  | nodeAddress => [⟨.getData, .query .address, 1⟩]
  | firmwareVersion => [⟨.getData, .query .firmwareVersion, 4⟩]
  | bootloaderVersion => [⟨.getData, .query .bootloaderVersion, 4⟩]
  | firmwareNameLength => [⟨.getData, .query .firmwareNameLength, 1⟩]
  | firmwareName =>
    ⟨.getData, .query .firmwareNameLength, 1⟩ ::
      if told = 0 then [] else [⟨.getData, .query .firmwareName, told.toNat⟩]
  | setAddress new => [⟨.setAddress, .address new, 1⟩]
  | eraseConfig => [⟨.eraseConfig, .empty, 0⟩]
  | resetToBootloader => [⟨.resetToBootloader, .empty, 0⟩]
  | resetToFirmware => [⟨.resetToFirmware, .empty, 0⟩]
  | readMemory location size => [⟨.readMemory, .memory location, size + 4⟩]
  | ledSet16 first values => [⟨.ledSet16, .leds ⟨first, true, values.flatMap toWire⟩, 0⟩]
  | ledSet8 first values => [⟨.ledSet8, .leds ⟨first, false, values⟩, 0⟩]
  | ledCommit => [⟨.ledCommit, .empty, 0⟩]
  | flashFirmware _ image =>
    image.pages.map fun page => ⟨.flashFirmware, .page (.ofData page.1 page.2), 1⟩
  | getData query size _ => [⟨.getData, .query (Coded.ofCode query), size⟩]

namespace Operation

def call {m : Type → Type} [Monad m] [Transport m] (target : UInt8) : Operation → Call m Unit
  | ask asking => asking.call target
  | getData query size => Functor.discard (Host.getData target query size)

def misuse? : Operation → Option Misuse
  | ask asking => asking.misuse?
  | getData _ size => if 65535 < 6 + size then some .packetTooLong else none

def demands (told : UInt8) : Operation → List Demand
  | ask asking => asking.demands told
  | getData query size => [⟨.getData, .query (Coded.ofCode query), size⟩]

end Operation

/-! ## Payloads -/

/-- Payload bytes that carry what a demand means. -/
inductive Demand.Carried : Demand → List UInt8 → Prop where
  | alone {command : Command} {reply : Nat} (wanted : command.wanted = .execute) :
      Carried ⟨command, .empty, reply⟩ []
  | fixed {command : Command} {kind : PayloadKind} {payload : List UInt8} {meaning : Payload}
      {reply : Nat} (wanted : command.wanted = .collect kind) (fixed : ∀ wide, kind ≠ .leds wide)
      (length : payload.length = kind.capacity)
      (read : (⟨kind, payload.toArray⟩ : Collector).decode? = some meaning) :
      Carried ⟨command, meaning, reply⟩ payload
  | leds {command : Command} {wide : Bool} {first : UInt16} {values : List UInt8}
      (wanted : command.wanted = .collect (.leds wide)) (few : values.length ≤ 2 * maxLedValues) :
      Carried ⟨command, .leds ⟨first, wide, values⟩, 0⟩ (toWire first ++ values)

/-- The packet of a demand. -/
def Demand.Packs (target : UInt8) (demand : Demand) (bytes : List UInt8) : Prop :=
  ∃ payload, demand.Carried payload ∧
    packet target demand.command payload demand.reply = .ok bytes

/-- A question carries the two bytes of its item. -/
theorem carried_query (query : UInt16) (size : Nat) :
    Demand.Carried ⟨.getData, .query (Coded.ofCode query), size⟩ (toWire query) := by
  refine .fixed rfl nofun (length_toWire query) ?_
  have hRead : (ofWire (toWire query) : Query) = Coded.ofCode query :=
    congrArg Coded.ofCode (ofWire_toWire query)
  exact congrArg (some ∘ Payload.query) hRead

/-- A new address is carried by its byte. -/
theorem carried_address (new : UInt8) (reply : Nat) :
    Demand.Carried ⟨.setAddress, .address new, reply⟩ (toWire new) :=
  .fixed rfl nofun (length_toWire new) (congrArg (some ∘ Payload.address) (ofWire_toWire new))

/-- A location is carried by its four bytes. -/
theorem carried_memory (location : UInt32) (reply : Nat) :
    Demand.Carried ⟨.readMemory, .memory location, reply⟩ (toWire location) :=
  .fixed rfl nofun (length_toWire location)
    (congrArg (some ∘ Payload.memory) (ofWire_toWire location))

/-- A page is carried with its index and its checksum. -/
theorem carried_page (index : UInt16) {data : List UInt8} (h : data.length = Layout.pageSize)
    (reply : Nat) :
    Demand.Carried ⟨.flashFirmware, .page (.ofData index data), reply⟩ (pageRequest index data) := by
  have hData : (Page.ofData index data).data.toList = data := Page.toList_ofData h
  have hLength := (Page.ofData index data).length_pageRequest
  have hRead := Page.ofBytes_fields index (Page.ofData index data).data (checksum data)
  rw [hData] at hLength hRead
  exact .fixed rfl nofun hLength (congrArg (some ∘ Payload.page) hRead)

/-- A packet that fits is the header of its exchange before its payload. -/
theorem packet_of_fits {target : UInt8} {command : Command} {payload : List UInt8} {reply : Nat}
    (h : exchangeLength payload.length reply ≤ 65535) :
    packet target command payload reply =
      .ok (toWire (Header.ofLength (exchangeLength payload.length reply) target command) ++
        payload) :=
  if_neg (Nat.not_lt.mpr h)

/-! ## Packets -/

section Calls

variable {α β : Type} {P Q : Bool → List (List UInt8) → Prop} {packets : List (List UInt8)}

/-- What a call transmits, and whether it succeeds then, whatever its transport answers. -/
def Sends (call : Call (StateM Script) α) (P : Bool → List (List UInt8) → Prop) : Prop :=
  ∀ script : Script, ∃ packets,
    (call.run.run script).2.packets.toList = script.packets.toList ++ packets ∧
      P (call.run.run script).1.isOk packets

/-- A call that transmits nothing. -/
def Silent (call : Call (StateM Script) α) : Prop :=
  Sends call fun _ packets => packets = []

/-- What a call transmits can be said with less. -/
theorem Sends.mono {call : Call (StateM Script) α} (sends : Sends call P)
    (h : ∀ succeeds packets, P succeeds packets → Q succeeds packets) : Sends call Q := by
  intro script
  obtain ⟨packets, hPackets, hNow⟩ := sends script
  exact ⟨packets, hPackets, h _ _ hNow⟩

/-- To return transmits nothing and succeeds. -/
theorem sends_pure (result : α) (h : P true []) : Sends (pure result) P :=
  fun _ => ⟨[], (List.append_nil _).symm, h⟩

/-- To fail transmits nothing and fails. -/
theorem sends_throw (error : Error) (h : P false []) :
    Sends (throw error : Call (StateM Script) α) P :=
  fun _ => ⟨[], (List.append_nil _).symm, h⟩

/-- A call sends what its first part does and, if that succeeds, what its second part does. -/
theorem Sends.bind {call : Call (StateM Script) α} {rest : α → Call (StateM Script) β}
    (first : Sends call P) (failed : ∀ packets, P false packets → Q false packets)
    (second : ∀ result packets, P true packets →
      Sends (rest result) fun succeeds more => Q succeeds (packets ++ more)) :
    Sends (call >>= rest) Q := by
  intro script
  obtain ⟨packets, hPackets, hFirst⟩ := first script
  rw [ExceptT.run_bind, StateT.run_bind]
  rcases hRun : call.run.run script with ⟨outcome, next⟩
  rw [hRun] at hPackets hFirst
  cases outcome with
  | error error => exact ⟨packets, hPackets, failed packets hFirst⟩
  | ok result =>
      obtain ⟨more, hMore, hSecond⟩ := second result packets hFirst next
      refine ⟨packets ++ more, ?_, hSecond⟩
      calc ((rest result).run.run next).2.packets.toList
          = next.packets.toList ++ more := hMore
        _ = script.packets.toList ++ packets ++ more := by rw [hPackets]
        _ = script.packets.toList ++ (packets ++ more) := List.append_assoc ..

theorem Sends.map {call : Call (StateM Script) α} (change : α → β) (sends : Sends call P) :
    Sends (change <$> call) P := by
  rw [map_eq_pure_bind]
  refine sends.bind (fun _ h => h) fun result packets h => sends_pure _ ?_
  rwa [List.append_nil]

theorem Sends.discard {call : Call (StateM Script) α} (sends : Sends call P) :
    Sends (Functor.discard call) P :=
  sends.map fun _ => ()

/-- Calls that transmit nothing transmit nothing one after the other. -/
theorem Silent.bind {call : Call (StateM Script) α} {rest : α → Call (StateM Script) β}
    (first : Silent call) (second : ∀ result, Silent (rest result)) : Silent (call >>= rest) := by
  refine Sends.bind first (fun _ h => h) fun result none hNone => ?_
  rw [hNone]
  exact second result

theorem silent_pure (result : α) : Silent (pure result) :=
  sends_pure result rfl

theorem silent_throw (error : Error) : Silent (throw error : Call (StateM Script) α) :=
  sends_throw error rfl

/-- To transmit is one packet, whether the transport takes it or not. -/
theorem sends_transmit (bytes : List UInt8) :
    Sends (Call.transmit bytes) fun _ packets => packets = [bytes] := by
  intro script
  obtain ⟨receives, outcomes, packets, reads⟩ := script
  cases outcomes with
  | nil => exact ⟨[bytes], Array.toList_push .., rfl⟩
  | cons outcome rest => exact ⟨[bytes], Array.toList_push .., rfl⟩

theorem silent_receive (size : Nat) : Silent (Call.receive size) := by
  refine Sends.map _ ?_
  intro script
  obtain ⟨outcomes, transmits, packets, reads⟩ := script
  cases outcomes with
  | nil => exact ⟨[], (List.append_nil _).symm, rfl⟩
  | cons outcome rest =>
      cases outcome with
      | ok bytes => exact ⟨[], (List.append_nil _).symm, rfl⟩
      | error error => exact ⟨[], (List.append_nil _).symm, rfl⟩

theorem silent_pause (milliseconds : Nat) :
    Silent (Call.pause milliseconds : Call (StateM Script) Unit) :=
  fun _ => ⟨[], (List.append_nil _).symm, rfl⟩

end Calls

theorem silent_receiveExactly (size : Nat) : Silent (receiveExactly size) := by
  refine (silent_receive size).bind fun bytes => ?_
  split
  · exact silent_throw _
  · split
    · exact silent_throw _
    · exact silent_pure bytes

/-- To wait for a status transmits nothing, however often it looks. -/
theorem silent_awaitStatus (delay attempts : Nat) : Silent (awaitStatus delay attempts) := by
  induction attempts with
  | zero => exact silent_pure none
  | succ attempts ih =>
      refine (silent_receive 1).bind fun bytes => ?_
      split
      · exact silent_pure _
      · exact (silent_pause delay).bind fun _ => ih

/-- The packets of a call: those of its first demands, of the first one at least, and those of all
demands if the call succeeds. -/
def Sent (target : UInt8) (demands : List Demand) (succeeds : Bool) (packets : List (List UInt8)) :
    Prop :=
  ∃ done, done <+: demands ∧ (demands ≠ [] → done ≠ []) ∧ (succeeds = true → done = demands) ∧
    List.Forall₂ (Demand.Packs target) done packets

variable {target : UInt8}

theorem sent_nil (succeeds : Bool) : Sent target [] succeeds [] :=
  ⟨[], List.nil_prefix, fun h => absurd rfl h, fun _ => rfl, .nil⟩

/-- The packet of the first demand alone is what a call that failed may have sent. -/
theorem sent_first {demand : Demand} {bytes : List UInt8} (packs : demand.Packs target bytes)
    (rest : List Demand) : Sent target (demand :: rest) false [bytes] :=
  ⟨[demand], by simp, nofun, nofun, .cons packs .nil⟩

/-- A demand more in front is a packet more in front. -/
theorem Sent.cons {demand : Demand} {bytes : List UInt8} {rest : List Demand} {succeeds : Bool}
    {packets : List (List UInt8)} (packs : demand.Packs target bytes)
    (sent : Sent target rest succeeds packets) :
    Sent target (demand :: rest) succeeds (bytes :: packets) := by
  obtain ⟨done, hPrefix, _, hAll, hPacks⟩ := sent
  refine ⟨demand :: done, ?_, nofun, fun hSucceeds => ?_, .cons packs hPacks⟩
  · exact List.cons_prefix_cons.mpr ⟨rfl, hPrefix⟩
  · rw [hAll hSucceeds]

section Request

variable {command : Command} {meaning : Payload} {reply : Nat} {payload : List UInt8}

/-- A request that fits in a packet is transmitted. -/
theorem sends_request (target : UInt8)
    (carried : Demand.Carried ⟨command, meaning, reply⟩ payload)
    (hFits : exchangeLength payload.length reply ≤ 65535) :
    ∃ bytes, Demand.Packs target ⟨command, meaning, reply⟩ bytes ∧
      Sends (request target command payload reply) fun _ packets => packets = [bytes] := by
  have hPacket : packet target command payload reply = _ := packet_of_fits hFits
  refine ⟨_, ⟨payload, carried, hPacket⟩, ?_⟩
  rw [request, hPacket]
  exact sends_transmit _

/-- A request is one demand, and it is sent as one packet that carries it. -/
theorem sends_only (target : UInt8)
    (carried : Demand.Carried ⟨command, meaning, reply⟩ payload)
    (hFits : exchangeLength payload.length reply ≤ 65535) :
    Sends (request target command payload reply) (Sent target [⟨command, meaning, reply⟩]) := by
  obtain ⟨bytes, packs, hSends⟩ := sends_request target carried hFits
  refine hSends.mono fun succeeds packets hPackets => ?_
  rw [hPackets]
  exact (sent_nil succeeds).cons packs

end Request

/-- Where one packet is demanded one is transmitted. -/
theorem Sent.single {demand : Demand} {succeeds : Bool} {packets : List (List UInt8)}
    (sent : Sent target [demand] succeeds packets) :
    ∃ bytes, demand.Packs target bytes ∧ packets = [bytes] := by
  obtain ⟨done, hPrefix, hSome, _, hPacks⟩ := sent
  have hDone : done = [demand] := by
    rcases List.prefix_cons_iff.mp hPrefix with hNone | ⟨rest, rfl, hRest⟩
    · exact absurd hNone (hSome nofun)
    · rw [List.prefix_nil.mp hRest]
  subst hDone
  cases hPacks with
  | cons packs rest =>
      cases rest
      exact ⟨_, packs, rfl⟩

/-- A call that transmits one packet may well fail or succeed after that. -/
theorem Sent.anyway {demand : Demand} {succeeds : Bool} {packets : List (List UInt8)}
    (sent : Sent target [demand] succeeds packets) (other : Bool) :
    Sent target [demand] other (packets ++ []) := by
  obtain ⟨bytes, packs, rfl⟩ := sent.single
  exact (sent_nil other).cons packs

/-- A call that transmits one request and is silent then. -/
theorem sends_one {α : Type} {demand : Demand} {call : Call (StateM Script) Unit}
    {rest : Unit → Call (StateM Script) α} (first : Sends call (Sent target [demand]))
    (hSilent : ∀ result, Silent (rest result)) :
    Sends (call >>= rest) (Sent target [demand]) := by
  refine first.bind (fun _ hSent => hSent) fun result packets hSent => ?_
  refine (hSilent result).mono fun succeeds more hMore => ?_
  rw [hMore]
  exact hSent.anyway succeeds

/-- To ask for data is one question. -/
theorem sends_getData (target : UInt8) (query : UInt16) {size : Nat} (hFits : 6 + size ≤ 65535) :
    Sends (getData target query size)
      (Sent target [⟨.getData, .query (Coded.ofCode query), size⟩]) := by
  have hLength : (toWire query).length = 2 := length_toWire query
  have hRequest := sends_only target (carried_query query size) (by rwa [hLength])
  refine sends_one hRequest fun _ => ?_
  refine (silent_receive size).bind fun bytes => ?_
  split
  · exact silent_throw _
  · exact silent_pure bytes

/-- To ask for an item is one question of its size. -/
theorem sends_getItem (target : UInt8) {α : Type} [Packed α] (item : Query)
    (hFits : 6 + Packed.size α ≤ 65535) :
    Sends (getItem α target item) (Sent target [⟨.getData, .query item, Packed.size α⟩]) := by
  have hCode : (Coded.ofCode (Coded.code item) : Query) = item := LawfulCoded.ofCode_code item
  have hData := sends_getData target (Coded.code item) hFits
  rw [hCode] at hData
  refine hData.bind (fun _ h => h) fun bytes packets hPackets => ?_
  split
  · exact sends_pure _ (hPackets.anyway true)
  · exact sends_throw _ (hPackets.anyway false)

/-- To ask for a name is to ask for its length and then for so many bytes. -/
theorem sends_firmwareNameBytes :
    Sends (firmwareNameBytes target) fun succeeds packets =>
      ∃ told, Sent target (Asking.firmwareName.demands told) succeeds packets := by
  have hLength : Sends (firmwareNameLength target) _ :=
    sends_getItem target .firmwareNameLength (by decide)
  refine hLength.bind (fun packets hPackets => ?_) fun told packets hPackets => ?_
  · obtain ⟨packet, packs, rfl⟩ := hPackets.single
    exact ⟨0, sent_first packs _⟩
  · obtain ⟨packet, packs, rfl⟩ := hPackets.single
    split
    · next hNone => exact sends_pure _ ⟨told, by rw [hNone]; exact (sent_nil true).cons packs⟩
    · next hSome =>
        have hTold := told.toNat_lt
        have hFits : 6 + told.toNat ≤ 65535 := by omega
        have hName := sends_getData target (Coded.code Query.firmwareName) hFits
        refine hName.mono fun succeeds more hMore => ⟨told, ?_⟩
        rw [Asking.demands, if_neg hSome]
        exact hMore.cons packs

/-- Pages are demanded in their order, and the first that is not acknowledged is the last one. -/
theorem sends_flashPages (settings : Settings) {pages : List (UInt16 × List UInt8)}
    (hPages : ∀ page ∈ pages, page.2.length = Layout.pageSize) :
    Sends (flashPages settings target pages)
      (Sent target (pages.map fun page => ⟨.flashFirmware, .page (.ofData page.1 page.2), 1⟩)) := by
  induction pages with
  | nil => exact sends_pure () (sent_nil true)
  | cons page rest ih =>
      obtain ⟨index, data⟩ := page
      have hData : data.length = Layout.pageSize := hPages (index, data) (List.mem_cons_self ..)
      have hRest := ih fun page hMem => hPages page (List.mem_cons_of_mem _ hMem)
      have hFits : exchangeLength (pageRequest index data).length 1 ≤ 65535 := by
        rw [length_pageRequest index hData]
        decide
      obtain ⟨bytes, packs, hSends⟩ := sends_request target (carried_page index hData 1) hFits
      refine Sends.bind hSends (fun packets hPackets => ?_) fun _ packets hPackets => ?_
      · rw [hPackets]
        exact sent_first packs _
      · subst hPackets
        refine Sends.bind (silent_awaitStatus _ _) (fun none hNone => ?_) fun status none hNone => ?_
        · rw [hNone]
          exact sent_first packs _
        · subst hNone
          split
          · exact hRest.mono fun succeeds more hMore => hMore.cons packs
          · exact sends_throw _ (sent_first packs _)

/-- To set an address that a node may have is one demand. -/
theorem sends_setAddress {new : UInt8} (hNew : ¬(new = unconfigured ∨ new = broadcast)) :
    Sends (setAddress target new) (Sent target [⟨.setAddress, .address new, 1⟩]) := by
  have hLength : (toWire new).length = 1 := length_toWire new
  have hFits : exchangeLength (toWire new).length 1 ≤ 65535 := by
    rw [hLength]
    decide
  rw [setAddress, if_neg hNew]
  refine sends_one (sends_only target (carried_address new 1) hFits) fun _ => ?_
  refine (silent_receiveExactly 1).bind fun bytes => ?_
  dsimp only
  split
  · exact silent_pure ()
  · exact silent_throw _

/-- To read whole words, no more than a page of them, is one demand. -/
theorem sends_readMemory (location : UInt32) {size : Nat}
    (hSize : ¬(size % 4 ≠ 0 ∨ Layout.pageSize < size)) :
    Sends (readMemory target location size)
      (Sent target [⟨.readMemory, .memory location, size + 4⟩]) := by
  have hLength : (toWire location).length = 4 := length_toWire location
  have hFits : exchangeLength (toWire location).length (size + 4) ≤ 65535 := by
    simp only [Layout.pageSize] at hSize
    rw [hLength, exchangeLength, Header.size]
    omega
  rw [readMemory, if_neg hSize]
  refine sends_one (sends_only target (carried_memory location (size + 4)) hFits) fun _ => ?_
  refine (silent_receiveExactly size).bind fun bytes => ?_
  refine (silent_receiveExactly 4).bind fun sum => ?_
  dsimp only
  split
  · exact silent_pure bytes
  · exact silent_throw _

/-- Output values fit in a packet. -/
theorem fits_leds (first : UInt16) {values : List UInt8} (h : values.length ≤ 2 * maxLedValues) :
    exchangeLength (toWire first ++ values).length 0 ≤ 65535 := by
  have hFirst : (toWire first).length = 2 := length_toWire first
  rw [List.length_append, hFirst, exchangeLength, Header.size]
  simp only [maxLedValues] at h
  omega

theorem length_wideValues (values : List UInt16) :
    (values.flatMap toWire).length = 2 * values.length := by
  induction values with
  | nil => rfl
  | cons value rest ih =>
      have hValue : (toWire value).length = 2 := length_toWire value
      rw [List.flatMap_cons, List.length_append, hValue, ih, List.length_cons]
      omega

/-- Wide values that are few enough are one demand. -/
theorem sends_ledSet16 (first : UInt16) {values : List UInt16}
    (hFew : ¬ maxLedValues < values.length) :
    Sends (ledSet16 target first values)
      (Sent target [⟨.ledSet16, .leds ⟨first, true, values.flatMap toWire⟩, 0⟩]) := by
  have hLength : (values.flatMap toWire).length ≤ 2 * maxLedValues := by
    rw [length_wideValues]
    exact Nat.mul_le_mul_left 2 (Nat.le_of_not_lt hFew)
  rw [ledSet16, if_neg hFew]
  exact sends_only target (.leds rfl hLength) (fits_leds first hLength)

/-- Narrow values that are few enough are one demand. -/
theorem sends_ledSet8 (first : UInt16) {values : List UInt8}
    (hFew : ¬ maxLedValues < values.length) :
    Sends (ledSet8 target first values)
      (Sent target [⟨.ledSet8, .leds ⟨first, false, values⟩, 0⟩]) := by
  have hLength : values.length ≤ 2 * maxLedValues := by omega
  rw [ledSet8, if_neg hFew]
  exact sends_only target (.leds rfl hLength) (fits_leds first hLength)

/-- The request of a command without a payload. -/
theorem sends_alone (target : UInt8) (command : Command) (reply : Nat)
    (wanted : command.wanted = .execute) (hFits : exchangeLength 0 reply ≤ 65535) :
    Sends (request target command [] reply) (Sent target [⟨command, .empty, reply⟩]) :=
  sends_only target (.alone wanted) hFits

/-- Arguments of which nothing is said are no misuse. -/
theorem not_of_misuse {p : Prop} [Decidable p] {reason : Misuse}
    (h : (if p then some reason else none) = none) : ¬p := by
  intro hWrong
  rw [if_pos hWrong] at h
  cases h

theorem of_misuse {p : Prop} [Decidable p] {own reason : Misuse}
    (h : (if p then some own else none) = some reason) : p ∧ own = reason := by
  split at h
  · next hWrong => exact ⟨hWrong, Option.some.inj h⟩
  · cases h

/-- The call transmits the packets of its demands. -/
theorem Asking.sends (asking : Asking) (h : asking.misuse? = none) :
    Sends (asking.call target) fun succeeds packets =>
      ∃ told, Sent target (asking.demands told) succeeds packets := by
  have hAny {α : Type} {call : Call (StateM Script) α} {demands : List Demand}
      (hSends : Sends call (Sent target demands))
      (hDemands : ∀ told, asking.demands told = demands) :
      Sends call fun succeeds packets =>
        ∃ told, Sent target (asking.demands told) succeeds packets :=
    hSends.mono fun _ _ hSent => ⟨0, by rwa [hDemands]⟩
  cases asking with
  | ping =>
      have hRequest := sends_alone target .ping 1 rfl (by decide)
      exact hAny (sends_one hRequest fun _ => (silent_receiveExactly 1).map _) fun _ => rfl
  | status => exact hAny (sends_getItem target .status (by decide)).discard fun _ => rfl
  | nodeAddress => exact hAny (sends_getItem target .address (by decide)).discard fun _ => rfl
  | firmwareVersion =>
      exact hAny (sends_getItem target .firmwareVersion (by decide)).discard fun _ => rfl
  | bootloaderVersion =>
      exact hAny (sends_getItem target .bootloaderVersion (by decide)).discard fun _ => rfl
  | firmwareNameLength =>
      exact hAny (sends_getItem target .firmwareNameLength (by decide)).discard fun _ => rfl
  | firmwareName =>
      refine Sends.discard (sends_firmwareNameBytes.bind (fun _ hSent => hSent) ?_)
      intro bytes packets hSent
      exact sends_pure _ (by rwa [List.append_nil])
  | setAddress new => exact hAny (sends_setAddress (not_of_misuse h)) fun _ => rfl
  | eraseConfig => exact hAny (sends_alone target .eraseConfig 0 rfl (by decide)) fun _ => rfl
  | resetToBootloader => exact hAny (sends_alone target .resetToBootloader 0 rfl (by decide)) fun _ => rfl
  | resetToFirmware => exact hAny (sends_alone target .resetToFirmware 0 rfl (by decide)) fun _ => rfl
  | readMemory location size =>
      exact hAny (sends_readMemory location (not_of_misuse h)).discard fun _ => rfl
  | ledSet16 first values => exact hAny (sends_ledSet16 first (not_of_misuse h)) fun _ => rfl
  | ledSet8 first values => exact hAny (sends_ledSet8 first (not_of_misuse h)) fun _ => rfl
  | ledCommit => exact hAny (sends_alone target .ledCommit 0 rfl (by decide)) fun _ => rfl
  | flashFirmware settings image =>
      exact hAny (sends_flashPages settings fun _ hMem => image.length_of_mem_pages hMem)
        fun _ => rfl
  | getData query size sized =>
      have hFits : 6 + size ≤ 65535 := Nat.le_of_not_lt (not_of_misuse h)
      exact hAny (sends_getData target query hFits).discard fun _ => rfl

namespace Operation

variable {target : UInt8} {op : Operation}

/-- A question for a long answer is refused. -/
theorem getData_of_misuse (query : UInt16) {size : Nat} (h : 65535 < 6 + size) :
    (Host.getData target query size : Call (StateM Script) (List UInt8)) =
      throw (.misuse .packetTooLong) := by
  have hLength : (toWire query).length = 2 := length_toWire query
  have hPacket : packet target .getData (toWire query) size = .error (.misuse .packetTooLong) := by
    rw [packet, hLength]
    exact if_pos h
  unfold Host.getData request
  rw [hPacket]
  rfl

/-- A misuse is refused before anything is transmitted. -/
theorem call_of_misuse {reason : Misuse} (h : op.misuse? = some reason) :
    (op.call target : Call (StateM Script) Unit) = throw (.misuse reason) := by
  cases op with
  | getData query size =>
      obtain ⟨hLong, rfl⟩ := of_misuse h
      rw [call, getData_of_misuse query hLong]
      rfl
  | ask asking =>
      cases asking with
      | setAddress new =>
          obtain ⟨hWrong, rfl⟩ := of_misuse h
          exact if_pos hWrong
      | readMemory location size =>
          obtain ⟨hWrong, rfl⟩ := of_misuse h
          have hRefused : (Host.readMemory target location size :
              Call (StateM Script) (List UInt8)) = throw (.misuse .invalidReadLength) :=
            if_pos hWrong
          rw [call, Asking.call, hRefused]
          rfl
      | ledSet16 first values =>
          obtain ⟨hMany, rfl⟩ := of_misuse h
          exact if_pos hMany
      | ledSet8 first values =>
          obtain ⟨hMany, rfl⟩ := of_misuse h
          exact if_pos hMany
      | getData query size sized =>
          obtain ⟨hLong, rfl⟩ := of_misuse h
          rw [call, Asking.call, getData_of_misuse query hLong]
          rfl
      | _ => cases h

/-- A call that is no misuse transmits the packets of its demands. -/
theorem sends (h : op.misuse? = none) :
    Sends (op.call target) fun succeeds packets =>
      ∃ told, Sent target (op.demands told) succeeds packets := by
  cases op with
  | ask asking => exact asking.sends h
  | getData query size =>
      have hFits : 6 + size ≤ 65535 := Nat.le_of_not_lt (not_of_misuse h)
      exact (sends_getData target query hFits).discard.mono fun _ _ hSent => ⟨0, hSent⟩

end Operation

end Host

end Multidrop
