import Multidrop.Host.Flashing
import Multidrop.Proofs.Packed

/-!
What a host puts on the bus. Whatever a transport answers, and whether or not it does, each packet
of a call is a request of the command it is for, with a payload of the size it has to have and room
for the reply that the host waits for.
-/

namespace Multidrop

/-- How many bytes a data item takes, if not as many as are asked for. -/
def Query.itemSize? : Query → Option Nat
  | .status | .address | .firmwareNameLength => some 1
  | .firmwareVersion | .bootloaderVersion => some 4
  | .firmwareName | .unknown => none

namespace Host

/-- What a host may ask of a node: a command with its payload and the size of the reply. -/
inductive Expects : Command → List UInt8 → Nat → Prop where
  | ping : Expects .ping [] 1
  | data (query : UInt16) (size : Nat)
      (fixed : ∀ item, (Coded.ofCode query : Query).itemSize? = some item → size = item) :
      Expects .getData (toWire query) size
  | setAddress {payload : List UInt8} (length : payload.length = 1) : Expects .setAddress payload 1
  | eraseConfig : Expects .eraseConfig [] 0
  | resetToBootloader : Expects .resetToBootloader [] 0
  | resetToFirmware : Expects .resetToFirmware [] 0
  | readMemory {payload : List UInt8} {size : Nat} (length : payload.length = 4)
      (whole : size % 4 = 0) : Expects .readMemory payload (size + 4)
  | flashFirmware {payload : List UInt8} (length : payload.length = pagePayload) :
      Expects .flashFirmware payload 1
  | ledSet16 {payload : List UInt8} (least : 2 ≤ payload.length) : Expects .ledSet16 payload 0
  | ledSet8 {payload : List UInt8} (least : 2 ≤ payload.length) : Expects .ledSet8 payload 0
  | ledCommit : Expects .ledCommit [] 0

/-- A packet that asks something of the node with this address. -/
def Requests (target : UInt8) (bytes : List UInt8) : Prop :=
  ∃ command payload reply, Expects command payload reply ∧
    packet target command payload reply = .ok bytes

/-- What a host does with a node. -/
inductive Asking where
  | ping
  | status
  | nodeAddress
  | firmwareVersion
  | bootloaderVersion
  | firmwareNameLength
  | firmwareName
  | setAddress (new : UInt8)
  | eraseConfig
  | resetToBootloader
  | resetToFirmware
  | readMemory (location : UInt32) (size : Nat)
  | ledSet16 (first : UInt16) (values : List UInt16)
  | ledSet8 (first : UInt16) (values : List UInt8)
  | ledCommit
  | flashFirmware (settings : Settings) (image : Image)
  /-- Asks for a name or for an item that means nothing, in whatever size. -/
  | getData (query : UInt16) (size : Nat)
      (sized : (Coded.ofCode query : Query) = .firmwareName ∨
        (Coded.ofCode query : Query) = .unknown)

/-- The call that does it, its result aside. -/
def Asking.call {m : Type → Type} [Monad m] [Transport m] (target : UInt8) : Asking → Call m Unit
  | ping => Host.ping target
  | status => Functor.discard (Host.status target)
  | nodeAddress => Functor.discard (Host.nodeAddress target)
  | firmwareVersion => Functor.discard (Host.firmwareVersion target)
  | bootloaderVersion => Functor.discard (Host.bootloaderVersion target)
  | firmwareNameLength => Functor.discard (Host.firmwareNameLength target)
  | firmwareName => Functor.discard (Host.firmwareName target)
  | setAddress new => Host.setAddress target new
  | eraseConfig => Host.eraseConfig target
  | resetToBootloader => Host.resetToBootloader target
  | resetToFirmware => Host.resetToFirmware target
  | readMemory location size => Functor.discard (Host.readMemory target location size)
  | ledSet16 first values => Host.ledSet16 target first values
  | ledSet8 first values => Host.ledSet8 target first values
  | ledCommit => Host.ledCommit target
  | flashFirmware settings image => Host.flashFirmware settings target image
  | getData query size _ => Functor.discard (Host.getData target query size)

section Calls

variable {α β : Type} {P : List UInt8 → Prop}

/-- The packets that a call transmits when its transport follows a script. -/
def transmitted (call : Call (StateM Script) α) (script : Script) : List (List UInt8) :=
  (call.run.run { script with packets := #[] }).2.packets.toList

/-- A call that transmits nothing but such packets, whatever its transport answers. -/
def Transmits (P : List UInt8 → Prop) (call : Call (StateM Script) α) : Prop :=
  ∀ script : Script, (∀ bytes ∈ script.packets.toList, P bytes) →
    ∀ bytes ∈ (call.run.run script).2.packets.toList, P bytes

/-- What holds of all packets of a call holds of those that it transmits under a script. -/
theorem Transmits.transmitted {call : Call (StateM Script) α} (transmits : Transmits P call)
    (script : Script) : ∀ bytes ∈ transmitted call script, P bytes :=
  transmits { script with packets := #[] } nofun

theorem transmits_pure (result : α) : Transmits P (pure result) :=
  fun _ before => before

theorem transmits_throw (error : Error) : Transmits P (throw error : Call (StateM Script) α) :=
  fun _ before => before

/-- Two calls one after the other transmit what each of them does. -/
theorem Transmits.bind {call : Call (StateM Script) α} {rest : α → Call (StateM Script) β}
    (first : Transmits P call) (second : ∀ result, Transmits P (rest result)) :
    Transmits P (call >>= rest) := by
  intro script before
  have between := first script before
  rw [ExceptT.run_bind, StateT.run_bind]
  rcases hFirst : call.run.run script with ⟨outcome, next⟩
  rw [hFirst] at between
  cases outcome with
  | ok result => exact second result next between
  | error error => exact between

theorem Transmits.map {call : Call (StateM Script) α} (change : α → β) (first : Transmits P call) :
    Transmits P (change <$> call) := by
  rw [map_eq_pure_bind]
  exact first.bind fun result => transmits_pure (change result)

theorem Transmits.discard {call : Call (StateM Script) α} (first : Transmits P call) :
    Transmits P (Functor.discard call) :=
  first.map fun _ => ()

/-- To transmit a packet transmits that packet. -/
theorem transmits_transmit {bytes : List UInt8} (h : P bytes) :
    Transmits P (Call.transmit bytes) := by
  intro script before
  obtain ⟨receives, outcomes, packets, reads⟩ := script
  have hPushed : ∀ sent ∈ (packets.push bytes).toList, P sent := by
    intro sent hMem
    rw [Array.toList_push, List.mem_append, List.mem_singleton] at hMem
    rcases hMem with hBefore | rfl
    · exact before sent hBefore
    · exact h
  cases outcomes with
  | nil => exact hPushed
  | cons outcome rest => exact hPushed

/-- To receive transmits nothing. -/
theorem transmits_receive (size : Nat) : Transmits P (Call.receive size) := by
  refine Transmits.map _ ?_
  intro script before
  obtain ⟨outcomes, transmits, packets, reads⟩ := script
  cases outcomes with
  | nil => exact before
  | cons outcome rest =>
      cases outcome with
      | ok bytes => exact before
      | error error => exact before

theorem transmits_pause (milliseconds : Nat) :
    Transmits P (Call.pause milliseconds : Call (StateM Script) Unit) :=
  fun _ before => before

end Calls

variable {target : UInt8}

/-- A request is transmitted or refused by the host itself. -/
theorem transmits_request {command : Command} {payload : List UInt8} {reply : Nat}
    (expects : Expects command payload reply) :
    Transmits (Requests target) (request target command payload reply) := by
  unfold request
  split
  · exact transmits_throw _
  · next bytes hPacket =>
      exact transmits_transmit ⟨command, payload, reply, expects, hPacket⟩

theorem transmits_receiveExactly (size : Nat) :
    Transmits (Requests target) (receiveExactly size) := by
  refine (transmits_receive size).bind fun bytes => ?_
  split
  · exact transmits_throw _
  · split
    · exact transmits_throw _
    · exact transmits_pure bytes

/-- A question is a request, if its size is the one of its item. -/
theorem transmits_getData {query : UInt16} {size : Nat}
    (fixed : ∀ item, (Coded.ofCode query : Query).itemSize? = some item → size = item) :
    Transmits (Requests target) (getData target query size) := by
  refine (transmits_request (.data query size fixed)).bind fun _ => ?_
  refine (transmits_receive size).bind fun bytes => ?_
  split
  · exact transmits_throw _
  · exact transmits_pure bytes

/-- A question for an item is a request. -/
theorem transmits_getItem {α : Type} [Packed α] {query : Query}
    (hSize : query.itemSize? = some (Packed.size α)) :
    Transmits (Requests target) (getItem α target query) := by
  refine Transmits.bind (transmits_getData ?_) fun bytes => ?_
  · intro item hItem
    rw [LawfulCoded.ofCode_code, hSize] at hItem
    exact Option.some.inj hItem
  · split
    · exact transmits_pure _
    · exact transmits_throw _

/-- To wait for a status transmits nothing. -/
theorem transmits_awaitStatus (delay attempts : Nat) :
    Transmits (Requests target) (awaitStatus delay attempts) := by
  induction attempts with
  | zero => exact transmits_pure none
  | succ attempts ih =>
      refine (transmits_receive 1).bind fun bytes => ?_
      split
      · exact transmits_pure _
      · exact (transmits_pause delay).bind fun _ => ih

theorem length_pageRequest (index : UInt16) {data : List UInt8}
    (h : data.length = Layout.pageSize) : (pageRequest index data).length = pagePayload := by
  simp only [pageRequest, List.length_append, length_toWire, h]
  rfl

/-- Each page is a request. -/
theorem transmits_flashPages (settings : Settings) {pages : List (UInt16 × List UInt8)}
    (hPages : ∀ page ∈ pages, page.2.length = Layout.pageSize) :
    Transmits (Requests target) (flashPages settings target pages) := by
  induction pages with
  | nil => exact transmits_pure ()
  | cons page rest ih =>
      obtain ⟨index, data⟩ := page
      have hData : data.length = Layout.pageSize := hPages (index, data) (List.mem_cons_self ..)
      refine (transmits_request (.flashFirmware (length_pageRequest index hData))).bind fun _ => ?_
      refine (transmits_awaitStatus _ _).bind fun status => ?_
      split
      · exact ih fun page hMem => hPages page (List.mem_cons_of_mem _ hMem)
      · exact transmits_throw _

/-- All pages of an image are whole. -/
theorem Image.length_of_mem_pages {image : Image} {page : UInt16 × List UInt8}
    (h : page ∈ image.pages) : page.2.length = Layout.pageSize := by
  rw [pages, List.mem_map] at h
  obtain ⟨i, hMem, rfl⟩ := h
  rw [List.mem_range] at hMem
  have hInside : i * Layout.pageSize + Layout.pageSize ≤ image.bytes.length := by
    simp only [Layout.pageSize] at hMem ⊢
    omega
  rw [List.length_take, List.length_drop]
  omega

/-- To set an address is a request, unless no node can have it. -/
theorem transmits_setAddress (new : UInt8) :
    Transmits (Requests target) (setAddress target new) := by
  have hPayload : (toWire new).length = 1 := length_toWire new
  unfold setAddress
  split
  · exact transmits_throw _
  · refine (transmits_request (.setAddress hPayload)).bind fun _ => ?_
    refine (transmits_receiveExactly 1).bind fun bytes => ?_
    dsimp only
    split
    · exact transmits_pure ()
    · exact transmits_throw _

/-- To read memory is a request, unless it is no whole words or more than a page. -/
theorem transmits_readMemory (location : UInt32) (size : Nat) :
    Transmits (Requests target) (readMemory target location size) := by
  have hPayload : (toWire location).length = 4 := length_toWire location
  unfold readMemory
  split
  · exact transmits_throw _
  · next hSize =>
      have hWhole : size % 4 = 0 := by omega
      refine (transmits_request (.readMemory hPayload hWhole)).bind fun _ => ?_
      refine (transmits_receiveExactly size).bind fun bytes => ?_
      refine (transmits_receiveExactly 4).bind fun sum => ?_
      dsimp only
      split
      · exact transmits_pure bytes
      · exact transmits_throw _

/-- To ask for a name is two requests at most. -/
theorem transmits_firmwareNameBytes : Transmits (Requests target) (firmwareNameBytes target) := by
  refine Transmits.bind (transmits_getItem rfl) fun length => ?_
  split
  · exact transmits_pure []
  · exact transmits_getData nofun

theorem length_first_le (first : UInt16) (rest : List UInt8) :
    2 ≤ (toWire first ++ rest).length := by
  have hFirst : (toWire first).length = 2 := length_toWire first
  rw [List.length_append, hFirst]
  exact Nat.le_add_right ..

/-- Wide values are a request, unless there are too many. -/
theorem transmits_ledSet16 (first : UInt16) (values : List UInt16) :
    Transmits (Requests target) (ledSet16 target first values) := by
  unfold ledSet16
  split
  · exact transmits_throw _
  · exact transmits_request (.ledSet16 (length_first_le first _))

/-- Narrow values are a request, unless there are too many. -/
theorem transmits_ledSet8 (first : UInt16) (values : List UInt8) :
    Transmits (Requests target) (ledSet8 target first values) := by
  unfold ledSet8
  split
  · exact transmits_throw _
  · exact transmits_request (.ledSet8 (length_first_le first _))

/-- Every packet of a call to a node is a request. -/
theorem Asking.transmits (asking : Asking) :
    Transmits (Requests target) (asking.call target) := by
  cases asking with
  | ping => exact (transmits_request .ping).bind fun _ => (transmits_receiveExactly 1).map _
  | status => exact Transmits.discard (transmits_getItem rfl)
  | nodeAddress => exact Transmits.discard (transmits_getItem rfl)
  | firmwareVersion => exact Transmits.discard (transmits_getItem rfl)
  | bootloaderVersion => exact Transmits.discard (transmits_getItem rfl)
  | firmwareNameLength => exact Transmits.discard (transmits_getItem rfl)
  | firmwareName =>
      exact Transmits.discard
        (transmits_firmwareNameBytes.bind fun bytes => transmits_pure _)
  | setAddress new => exact transmits_setAddress new
  | eraseConfig => exact transmits_request .eraseConfig
  | resetToBootloader => exact transmits_request .resetToBootloader
  | resetToFirmware => exact transmits_request .resetToFirmware
  | readMemory location size => exact (transmits_readMemory location size).discard
  | ledSet16 first values => exact transmits_ledSet16 first values
  | ledSet8 first values => exact transmits_ledSet8 first values
  | ledCommit => exact transmits_request .ledCommit
  | flashFirmware settings image =>
      exact transmits_flashPages settings fun page hMem => image.length_of_mem_pages hMem
  | getData query size sized =>
      refine Transmits.discard (transmits_getData ?_)
      intro item hItem
      rcases sized with hName | hUnknown
      · rw [hName] at hItem
        cases hItem
      · rw [hUnknown] at hItem
        cases hItem

end Host

end Multidrop
