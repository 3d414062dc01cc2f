import Multidrop.Proofs.Firmware.Execution
import Multidrop.Proofs.Node.Hearing

/-!
The outputs of a firmware. What is handed over at a commit is told channel by channel from the
packets that came before it, however they came in.
-/

namespace Multidrop

open Grammar

/-! ## Channels -/

/-- Channels from the first one on change by one value each, all others stay. -/
theorem LedTable.getElem?_assign {α : Type} (change : Channel → α → Channel) (first : Nat)
    (values : List α) (channels : List Channel) (k : Nat) :
    (assign change first values channels)[k]? = channels[k]?.map fun channel =>
      if first ≤ k then (values[k - first]?).elim channel (change channel) else channel := by
  induction first, values, channels using assign.induct generalizing k with
  | case1 first values => simp [assign]
  | case2 channels => simp [assign]
  | case3 value values channel rest ih =>
      cases k with
      | zero => simp [assign]
      | succ k => simp [assign, ih]
  | case4 first values channel rest ih =>
      cases k with
      | zero => simp [assign]
      | succ k => simp [assign, ih]

namespace Leds

/-- The value bytes that a node keeps of a packet. -/
def kept (leds : Leds) : List UInt8 :=
  leds.values.take 2048

/-- The value with this number in a packet: a pair of bytes, the low one first, or a single byte,
which is turned into a wide value by the curve of the channel it is for. -/
def value? (leds : Leds) (curve : Curve) (i : Nat) : Option UInt16 :=
  if leds.wide then
    (leds.kept[2 * i]?).bind fun low => (leds.kept[2 * i + 1]?).map fun high =>
      UInt16.ofNat (low.toNat + 256 * high.toNat)
  else (leds.kept[i]?).map curve

/-- What becomes of channel `k`. The first value is for the first channel that the packet names, the
others are for the channels after it. -/
def valueOn (leds : Leds) (curve : Curve) (k : Nat) (before : UInt16) : UInt16 :=
  if leds.first.toNat ≤ k then (leds.value? curve (k - leds.first.toNat)).getD before else before

end Leds

/-- What all channels come to by several packets, one after the other, if they were off before. -/
def outputs (curves : List Curve) (sets : List Leds) : List UInt16 :=
  curves.mapIdx fun k curve => sets.foldl (fun before leds => leds.valueOn curve k before) 0

namespace Firmware

/-- A wide value is two bytes, the lower one first. -/
theorem getElem?_wideValues (bytes : List UInt8) (i : Nat) :
    (wideValues bytes)[i]? = (bytes[2 * i]?).bind fun low => (bytes[2 * i + 1]?).map fun high =>
      UInt16.ofNat (low.toNat + 256 * high.toNat) := by
  induction bytes using wideValues.induct generalizing i with
  | case1 low high rest ih =>
      cases i with
      | zero => rfl
      | succ i => simpa [wideValues, Nat.mul_succ] using ih i
  | case2 rest hShort =>
      rcases rest with _ | ⟨low, _ | ⟨high, rest⟩⟩
      · simp [wideValues]
      · cases i <;> simp [wideValues]
      · exact absurd rfl (hShort low high rest)

/-- A packet changes the values of channels and nothing else of them. -/
theorem getElem?_setLeds (table : LedTable) (leds : Leds) (k : Nat) :
    (setLeds table { leds with values := leds.kept }).channels[k]? =
      table.channels[k]?.map fun channel =>
        { channel with value := leds.valueOn channel.curve k channel.value } := by
  unfold setLeds
  cases hWide : leds.wide with
  | true =>
      simp only [if_true, LedTable.setWide, LedTable.getElem?_assign, getElem?_wideValues]
      congr 1
      funext channel
      simp only [Leds.valueOn, Leds.value?, hWide, if_true]
      split
      · cases hValue : (leds.kept[2 * (k - leds.first.toNat)]?).bind fun low =>
          (leds.kept[2 * (k - leds.first.toNat) + 1]?).map fun high =>
            UInt16.ofNat (low.toNat + 256 * high.toNat) <;> rfl
      · rfl
  | false =>
      simp only [Bool.false_eq_true, if_false, LedTable.setNarrow, LedTable.getElem?_assign]
      congr 1
      funext channel
      simp only [Leds.valueOn, Leds.value?, hWide, Bool.false_eq_true, if_false]
      split
      · cases leds.kept[k - leds.first.toNat]? <;> rfl
      · rfl

/-- The channels after several packets, if they were off before. -/
def tableAfter (curves : List Curve) (sets : List Leds) : LedTable :=
  ⟨curves.mapIdx fun k curve =>
    ⟨curve, sets.foldl (fun before leds => leds.valueOn curve k before) 0⟩⟩

/-- Before the first values all channels are off. -/
theorem tableAfter_nil (curves : List Curve) : tableAfter curves [] = .off curves := by
  have hChannels : (tableAfter curves []).channels = (LedTable.off curves).channels := by
    apply List.ext_getElem?
    intro k
    simp only [tableAfter, LedTable.off, List.getElem?_mapIdx, List.getElem?_map, List.foldl_nil]
  exact congrArg LedTable.mk hChannels

/-- The table holds for each channel what was set last. -/
theorem values_tableAfter (curves : List Curve) (sets : List Leds) :
    (tableAfter curves sets).values = outputs curves sets := by
  apply List.ext_getElem?
  intro k
  simp only [LedTable.values, tableAfter, outputs, List.getElem?_map, List.getElem?_mapIdx,
    Option.map_map, Function.comp_def]

/-- One packet more is applied to what the packets before it came to. -/
theorem setLeds_tableAfter (curves : List Curve) (sets : List Leds) (leds : Leds) :
    setLeds (tableAfter curves sets) { leds with values := leds.kept } =
      tableAfter curves (sets ++ [leds]) := by
  have hChannels : (setLeds (tableAfter curves sets) { leds with values := leds.kept }).channels =
      (tableAfter curves (sets ++ [leds])).channels := by
    apply List.ext_getElem?
    intro k
    rw [getElem?_setLeds]
    simp only [tableAfter, List.getElem?_mapIdx, Option.map_map, Function.comp_def,
      List.foldl_append, List.foldl_cons, List.foldl_nil]
  exact congrArg LedTable.mk hChannels

end Firmware

/-! ## Packets -/

/-- A packet for the outputs of a firmware. -/
inductive LedPacket where
  | set (leds : Leds)
  | commit

namespace LedPacket

def command : LedPacket → Command
  | set leds => if leds.wide then .ledSet16 else .ledSet8
  | commit => .ledCommit

def payload : LedPacket → List UInt8
  | set leds => toWire leds.first ++ leds.values
  | commit => []

/-- A packet declares its own bytes, since it is not answered. -/
def header (target : UInt8) (packet : LedPacket) : Header :=
  .ofLength (Header.size + packet.payload.length) target packet.command

def bytes (target : UInt8) (packet : LedPacket) : List UInt8 :=
  toWire (packet.header target) ++ packet.payload

/-- The length of the packet can be declared. -/
def Fits (packet : LedPacket) : Prop :=
  Header.size + packet.payload.length ≤ 65535

instance : DecidablePred Fits := fun packet =>
  inferInstanceAs (Decidable (Header.size + packet.payload.length ≤ 65535))

/-- The packets that set channels, without the commits between them. -/
def sets : List LedPacket → List Leds
  | [] => []
  | set leds :: rest => leds :: sets rest
  | commit :: rest => sets rest

/-- What is handed over at the commits among some packets, if others were applied before. -/
def handedOver (curves : List Curve) (before : List Leds) : List LedPacket → List (List UInt16)
  | [] => []
  | set leds :: rest => handedOver curves (before ++ [leds]) rest
  | commit :: rest => outputs curves before :: handedOver curves before rest

variable {packet : LedPacket} {target : UInt8}

/-- The declared length is the one of the packet. -/
theorem toNat_length (fits : packet.Fits) :
    (packet.header target).length.toNat = Header.size + packet.payload.length := by
  change (UInt16.ofNat (Header.size + packet.payload.length)).toNat = _
  rw [UInt16.toNat_ofNat', Nat.mod_eq_of_lt (Nat.lt_succ_of_le fits)]

/-- The values on the line are those that the packet was made of, as far as they are kept. -/
theorem payload_set {leds : Leds} (fits : (set leds).Fits) :
    Grammar.payload (lineOf ((set leds).bytes target)) (.collect (.leds leds.wide)) =
      .leds { leds with values := leds.kept } := by
  obtain ⟨_, hDeclared, hBody⟩ := lineOf_packet ((set leds).header target) (set leds).payload
  change Grammar.length (lineOf ((set leds).bytes target)) = _ at hDeclared
  change front (body (lineOf ((set leds).bytes target))) _ = _ at hBody
  generalize lineOf ((set leds).bytes target) = line at hDeclared hBody ⊢
  rw [toNat_length fits] at hDeclared
  have hChannel : (toWire leds.first).length = 2 := length_toWire leds.first
  have hPayload : (set leds).payload.length = 2 + leds.values.length := by
    rw [payload, List.length_append, hChannel]
  rw [hPayload] at hDeclared hBody
  have hFirst : front (body line) 2 = toWire leds.first := by
    have hTake := congrArg (List.take 2) hBody
    rw [take_front _ (Nat.le_add_right ..), payload, List.take_left' hChannel] at hTake
    exact hTake
  have hValues : front (fun i => body line (2 + i)) leds.values.length = leds.values := by
    have hDrop := congrArg (List.drop 2) hBody
    rw [drop_front, Nat.add_sub_cancel_left, payload, List.drop_left' hChannel] at hDrop
    exact hDrop
  have hSame : (fun i => body line (2 + i)) = fun i => line (6 + i) := by
    funext i
    rw [body, ← Nat.add_assoc]
  have hSize : min (length line - 6) 2048 = min 2048 leds.values.length := by
    rw [hDeclared, Header.size]
    omega
  have hKept : front (fun i => line (6 + i)) (min (length line - 6) 2048) = leds.kept := by
    rw [hSize, ← hSame, ← take_front _ (Nat.min_le_right ..), hValues, Leds.kept,
      ← List.take_eq_take_min]
  change Payload.leds ⟨ofWire (front (body line) 2), leds.wide, _⟩ = _
  rw [hFirst, ofWire_toWire, hKept]

end LedPacket

namespace Firmware

/-- What a packet for the outputs does to a firmware. -/
def applied (firmware : Firmware) : LedPacket → Firmware
  | .set leds =>
    { firmware with leds := setLeds firmware.leds { leds with values := leds.kept } }
  | .commit => { firmware with commits := firmware.commits.push firmware.leds.values }

/-- Packets are applied one after the other: the sets add up, and each commit hands over what they
came to so far. -/
theorem foldl_applied (firmware : Firmware) (curves : List Curve) (before : List Leds)
    (packets : List LedPacket) :
    packets.foldl applied { firmware with leds := tableAfter curves before } =
      { firmware with
        leds := tableAfter curves (before ++ LedPacket.sets packets)
        commits := firmware.commits ++ LedPacket.handedOver curves before packets } := by
  induction packets generalizing firmware before with
  | nil => simp [LedPacket.sets, LedPacket.handedOver]
  | cons packet rest ih =>
      rw [List.foldl_cons]
      cases packet with
      | set leds =>
          have hSet : applied { firmware with leds := tableAfter curves before } (.set leds) =
              { firmware with leds := tableAfter curves (before ++ [leds]) } := by
            rw [applied, setLeds_tableAfter]
          rw [hSet, ih, List.append_assoc]
          rfl
      | commit =>
          have hCommit : applied { firmware with leds := tableAfter curves before } .commit =
              { { firmware with commits := firmware.commits.push (outputs curves before) } with
                leds := tableAfter curves before } := by
            rw [applied, values_tableAfter]
          rw [hCommit, ih]
          simp [LedPacket.sets, LedPacket.handedOver]

/-- A packet that names a channel and has no value for it changes nothing. -/
theorem applied_valueless (firmware : Firmware) {leds : Leds} (h : leds.values = []) :
    firmware.applied (.set leds) = firmware := by
  have hNone (curve : Curve) (i : Nat) : leds.value? curve i = none := by
    simp [Leds.value?, Leds.kept, h]
  have hChannels : (setLeds firmware.leds { leds with values := leds.kept }).channels =
      firmware.leds.channels := by
    apply List.ext_getElem?
    intro k
    rw [getElem?_setLeds]
    simp [Leds.valueOn, hNone]
  have hTable : setLeds firmware.leds { leds with values := leds.kept } = firmware.leds :=
    congrArg LedTable.mk hChannels
  rw [applied, hTable]

theorem execute_set (firmware : Firmware) {header : Header} {leds : Leds} (session : Session)
    (hCommand : header.command = (LedPacket.set leds).command) :
    execute firmware ⟨header, .leds { leds with values := leds.kept }⟩ session =
      ([], firmware.applied (.set leds)) := by
  cases hWide : leds.wide with
  | true => simp [execute, hCommand, LedPacket.command, hWide, applied]
  | false => simp [execute, hCommand, LedPacket.command, hWide, applied]

end Firmware

namespace Node

variable {node : Node Firmware} {target : UInt8} {packet : LedPacket} {events : List Event}

/-- A packet for the outputs of an idle node is applied when the node is polled after its last byte.
Nothing is said, and the node is idle again. -/
theorem Idle.applies (idle : node.Idle) (hTarget : target = broadcast ∨ target = node.address)
    (fits : packet.Fits) (carries : Carries events (packet.bytes target)) :
    Shows (node.run (events ++ [.poll])) (node.commands.applied packet) node.address .idle
      node.link.value.trace.written := by
  have hLength := @LedPacket.toNat_length packet target fits
  have hNoReply : (packet.header target).length.toNat =
      Header.size + packet.payload.length + 0 := hLength
  have hTargets : (packet.header target).targets node.address = true :=
    Header.targets_iff.mpr hTarget
  have hApplied {wanted : Accept}
      (hAccept : Firmware.accept (packet.header target) = wanted)
      (hComplete : completion? (packet.header target).length.toNat wanted =
        some (Header.size + packet.payload.length))
      (hExecute : ∀ session, Firmware.execute node.commands
        ⟨packet.header target, Grammar.payload (lineOf (packet.bytes target)) wanted⟩ session =
          ([], node.commands.applied packet)) :
      Shows (node.run (events ++ [.poll])) (node.commands.applied packet) node.address .idle
        node.link.value.trace.written := by
    subst hAccept
    obtain ⟨execution, _, hCommands, hRequest, _, _, hAddress, hWritten, shows⟩ :=
      idle.executes_packet hTargets hNoReply hComplete carries
    have hBoth : CommandSet.execute execution.commands execution.request execution.session =
        ([], node.commands.applied packet) := by
      rw [hCommands, hRequest]
      exact hExecute execution.session
    rw [Execution.after, Execution.actions, hBoth] at shows
    rw [← hAddress, ← hWritten]
    exact shows
  cases packet with
  | commit => exact hApplied rfl rfl fun session => rfl
  | set leds =>
      have hSize : Header.size + (LedPacket.set leds).payload.length = 6 + leds.values.length := by
        rw [LedPacket.payload, List.length_append, length_toWire]
        exact (Nat.add_assoc 4 2 _).symm
      have hAccept := @Firmware.accept_outputs ((LedPacket.set leds).header target) leds.wide rfl
      by_cases hNone : leds.values = []
      · have hShort : ¬7 ≤ ((LedPacket.set leds).header target).length.toNat := by
          rw [hLength, hSize, hNone]
          decide
        rw [if_neg hShort] at hAccept
        rw [Firmware.applied_valueless _ hNone]
        exact (idle.ignores_packet hTargets hLength hAccept carries).2
      · have hSome := List.length_pos_iff.mpr hNone
        rw [if_pos (by omega)] at hAccept
        refine hApplied hAccept ?_ fun session => ?_
        · rw [hLength, completion?, if_pos (by omega)]
        · rw [LedPacket.payload_set fits]
          exact Firmware.execute_set node.commands session rfl

/-- Packets for the outputs of a node with this address. The node is polled after each of them,
before the next one comes, and whenever else it likes; the line may fall silent between them. -/
inductive Delivers (address : UInt8) : List Event → List LedPacket → Prop where
  | nil : Delivers address [] []
  | pause {event : Event} {rest : List Event} {packets : List LedPacket}
      (quiet : event = .poll ∨ event = .silence) (more : Delivers address rest packets) :
      Delivers address (event :: rest) packets
  | packet {events rest : List Event} {packet : LedPacket} {packets : List LedPacket}
      {target : UInt8} (reaches : target = broadcast ∨ target = address) (fits : packet.Fits)
      (carries : Carries events (packet.bytes target)) (more : Delivers address rest packets) :
      Delivers address (events ++ [.poll] ++ rest) (packet :: packets)

/-- The packets may come without a pause. -/
theorem Delivers.polled {address target : UInt8} (reaches : target = broadcast ∨ target = address)
    {packets : List LedPacket} (fits : ∀ packet ∈ packets, packet.Fits) :
    Delivers address (packets.flatMap fun packet => (packet.bytes target).map .byte ++ [.poll])
      packets := by
  induction packets with
  | nil => exact .nil
  | cons packet rest ih =>
      rw [List.flatMap_cons]
      exact .packet reaches (fits packet (.head _)) (.bytes _)
        (ih fun packet hMem => fits packet (.tail _ hMem))

/-- Packets that are delivered leave the node with all of them applied, waiting for the next. -/
theorem Delivers.shows {packets : List LedPacket} (idle : node.Idle)
    (delivers : Delivers node.address events packets) :
    Shows (node.run events) (packets.foldl Firmware.applied node.commands) node.address .idle
      node.link.value.trace.written := by
  generalize hAddress : node.address = address at delivers
  induction delivers generalizing node with
  | nil =>
      subst hAddress
      exact idle.shows
  | @pause event rest packets quiet more ih =>
      subst hAddress
      have shows : Shows (node.run [event]) node.commands node.address .idle
          node.link.value.trace.written := by
        rcases quiet with rfl | rfl
        · exact (idle.shows.poll_waiting rfl).2
        · exact idle.shows.timeout
      have hNext := ih ⟨shows.unlocked, shows.packet⟩ shows.address
      rw [← shows.commands, ← shows.said]
      exact hNext
  | @packet events rest packet packets target reaches fits carries more ih =>
      subst hAddress
      have shows := idle.applies reaches fits carries
      have hNext := ih ⟨shows.unlocked, shows.packet⟩ shows.address
      rw [run_append, List.foldl_cons, ← shows.commands, ← shows.said]
      exact hNext

/-- Whatever packets for its outputs a firmware gets, each commit hands over what the sets before it
come to, from all channels off and in their order; a set changes the channels that exist from the
first one on, by one value each, and hands over nothing. The values of a packet are pairs of bytes,
the low one first, or bytes that go through the curve of the channel they are for, and those after
the first 2048 bytes do not count. Nothing else of the firmware changes, and nothing is said. -/
theorem commits_handed_over (flash : Flash) (chip : Chip) (curves : List Curve) (version : UInt32)
    (name : List UInt8) {address : UInt8} {packets : List LedPacket}
    (delivers : Delivers address events packets) :
    let firmware : Firmware := .start flash chip curves version name
    let after := (start firmware address).run events
    after.Idle ∧ after.address = address ∧ after.link.value.trace.written = [] ∧
      after.commands = { firmware with
        leds := Firmware.tableAfter curves (LedPacket.sets packets)
        commits := (LedPacket.handedOver curves [] packets).toArray } := by
  intro firmware after
  have shows : Shows after _ _ .idle _ :=
    Delivers.shows (idle_start firmware address : (start firmware address).Idle) delivers
  have hOff : { firmware with leds := Firmware.tableAfter curves [] } = firmware := by
    rw [Firmware.tableAfter_nil]
    rfl
  have hApplied := firmware.foldl_applied curves [] packets
  rw [hOff] at hApplied
  refine ⟨⟨shows.unlocked, shows.packet⟩, shows.address, shows.said, ?_⟩
  rw [shows.commands]
  exact hApplied.trans (by simp [firmware, Firmware.start])

/-- Three channels of which the second one has a curve of its own get wide values from the second
one on, of which the last byte is half a value, then one byte each for the last two and one that
does not exist, and then nothing. -/
theorem commits_handed_over_twice :
    let curves : List Curve :=
      [UInt8.toUInt16, fun byte => 257 * byte.toUInt16, UInt8.toUInt16]
    let packets : List LedPacket := [.set ⟨1, true, [0x34, 0x12, 0xff]⟩, .commit,
      .set ⟨1, false, [10, 20, 30]⟩, .set ⟨0, true, []⟩, .commit]
    let events := packets.flatMap fun packet => (packet.bytes 9).map .byte ++ [.poll]
    let firmware : Firmware := .start ⟨#[], [], [], [], #[]⟩ {} curves 0x0102 []
    let after := (start firmware 9).run events
    (∀ packet ∈ packets, packet.Fits) ∧ after.link.value.trace.written = [] ∧
      after.commands.commits = #[[0, 0x1234, 0], [0, 2570, 20]] := by
  intro curves packets events
  have fits : ∀ packet ∈ packets, packet.Fits := by decide
  have delivers : Delivers 9 events packets := .polled (.inr rfl) fits
  obtain ⟨_, _, hSaid, hCommands⟩ :=
    commits_handed_over ⟨#[], [], [], [], #[]⟩ {} curves 0x0102 [] delivers
  have hCommits : (LedPacket.handedOver curves [] packets).toArray =
      #[[0, 0x1234, 0], [0, 2570, 20]] := by decide +kernel
  refine ⟨fits, hSaid, ?_⟩
  rw [hCommands]
  exact hCommits

end Node

end Multidrop
