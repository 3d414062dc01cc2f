import Multidrop.Proofs.Bootloader.Update
import Multidrop.Proofs.Host.Preparation

/-!
What a node says when it is asked for an item, and the name that a host learns from it. A host asks
for the length of the name first and then for that many bytes, so that the node neither cuts the
name nor fills it up.
-/

namespace Multidrop

open Node Identified

/-- An idle node answers any question that reaches it with what this identity has to say to it, and
waits for the next packet. -/
def Node.Answers {C : Type} [CommandSet C] (node : Node C) (identity : Identity) : Prop :=
  ∀ (header : Header) (code : UInt16) (events : List Event), header.command = .getData →
    header.targets node.address = true → 6 ≤ header.length.toNat →
      Carries events (toWire header ++ toWire code) →
        let after := node.run (events ++ [.poll])
        after.Idle ∧ after.address = node.address ∧
          after.link.value.trace.written = node.link.value.trace.written ++
            identity.reply node.address (header.length.toNat - 6) code

/-- A host learns this name, as bytes and as text, and says no more than it has to. -/
def Network.Tells {S : Type} [Station S] (network : Network S) (target : UInt8)
    (name : List UInt8) : Prop :=
  ∃ next, network.Gives (Host.firmwareNameBytes target) name next ∧
    network.Gives (Host.firmwareName target) (String.ofList (Utf8.decode name)) next ∧
    next.heard = network.heard ++ (Host.nameQuestions target name).flatten

/-- Whoever asks a node with this identity is told of it, and a host with the node on its bus learns
its name if that is as short as names are. -/
structure Node.Informs {C : Type} [CommandSet C] (node : Node C) (master : Master)
    (identity : Identity) : Prop where
  answers : node.Answers identity
  tells : identity.name.length ≤ Layout.nameMax → ∀ target : UInt8,
    target = broadcast ∨ target = node.address →
      (Network.plug master node).Tells target identity.name

/-- A node that is idle answers any number of inquiries from its identity. -/
theorem Node.Idle.informs {C : Type} [CommandSet C] [Identified C] {node : Node C}
    (idle : node.Idle) (master : Master) :
    node.Informs master (identity (settled node.commands)) where
  answers header code events hCommand hTargets hFits carries := by
    have shows := idle.answers hCommand hTargets hFits carries
    exact ⟨⟨shows.unlocked, shows.packet⟩, shows.address, shows.said⟩
  tells hName target hTarget := by
    obtain ⟨next, hBytes, _, hHeard⟩ := (Network.hosts_plug idle master).gives_name hTarget hName
    exact ⟨next, hBytes, hBytes.bind (.pure _), hHeard⟩

/-- No identity has a longer name than can be told. -/
theorem Identity.length_named (status : NodeStatus) (firmwareVersion bootloaderVersion : UInt32)
    (name : List UInt8) :
    (named status firmwareVersion bootloaderVersion name).name.length ≤ Layout.nameMax :=
  List.length_take_le ..

/-- A firmware has its own name as long as it runs, cut to what is reported of a name. -/
theorem Firmware.tells_name (flash : Flash) (chip : Chip) (curves : List Curve) (version : UInt32)
    (name : List UInt8) (address : UInt8) (events : List Event) {node : Node Firmware}
    (hNode : node = (Node.start (start flash chip curves version name) address).run events)
    (idle : node.Idle) (master : Master) {target : UInt8}
    (hTarget : target = broadcast ∨ target = node.address) :
    (Network.plug master node).Tells target (name.take Layout.nameMax) := by
  have hSame (execution : Execution Firmware) :
      execution.after.identity = execution.commands.identity :=
    execution.commands.execute_identity execution.request execution.session
  have hIdentity : node.commands.identity =
      .named .inFirmware version chip.bootloaderVersion name := by
    rw [hNode, unchanged_run hSame]
    rfl
  have informs : node.Informs master node.commands.identity := idle.informs master
  rw [hIdentity] at informs
  exact informs.tells (Identity.length_named ..) target hTarget

namespace Bootloader

variable {flash : Flash} (chip : Chip) (version : UInt32) (address : UInt8) (master : Master)
  {target : UInt8}

/-- A bootloader that just came up and found an image has the name that stands in it. -/
theorem tells_name (readable : flash.Readable) {info : ImageInfo}
    (h : checkFirmware flash = .ok info) (hTarget : target = broadcast ∨ target = address) :
    (Network.plug master (Node.start (start flash chip version) address)).Tells target
      ((flash.slice (SelfCheck.base + Layout.nameOffset)
        (min (info.size.toNat - Layout.nameOffset) Layout.nameMax)).takeWhile (· ≠ 0)) := by
  have hIdentity : (start flash chip version).refresh.identity =
      .named .inBootloader info.version version (firmwareName flash info) := by
    have hFresh : (start flash chip version).refresh = start flash chip version := rfl
    rw [hFresh, start, h]
    rfl
  have informs : (Node.start (start flash chip version) address).Informs master
      (start flash chip version).refresh.identity := (idle_start _ address).informs master
  have hName : (Identity.named .inBootloader info.version version (firmwareName flash info)).name =
      firmwareName flash info :=
    List.take_of_length_le (length_firmwareName flash info)
  rw [hIdentity] at informs
  have hTells := informs.tells (Identity.length_named ..) target hTarget
  rw [hName, firmwareName_of_ok readable h] at hTells
  exact hTells

/-- A bootloader that found no image has no name. -/
theorem tells_no_name {error : FirmwareError} (h : checkFirmware flash = .error error)
    (hTarget : target = broadcast ∨ target = address) :
    (Network.plug master (Node.start (start flash chip version) address)).Tells target [] := by
  have hIdentity : (start flash chip version).refresh.identity =
      .named .inBootloader 0 version [] := by
    have hFresh : (start flash chip version).refresh = start flash chip version := rfl
    rw [hFresh, start, h]
    rfl
  have informs : (Node.start (start flash chip version) address).Informs master
      (start flash chip version).refresh.identity := (idle_start _ address).informs master
  rw [hIdentity] at informs
  exact informs.tells (Identity.length_named ..) target hTarget

end Bootloader

/-- Every question is answered with what the identity of the node says, in as many bytes as the item
has or as the packet has room for, and a filling ends after as many turns as that takes. So a host
learns the name that a node has: that of a firmware, whatever happened to it, or what stands in an
image up to a zero byte, if the bootloader that just came up found one. If it did not, the host asks
once and learns that there is none. -/
theorem data_answered (master : Master) :
    (∀ (session : Session) (byte : UInt8), session.fill byte = session.run
      ((Session.pieces session.remaining).map fun size => .send (List.replicate size byte))) ∧
    (∀ node : Node Bootloader, node.Idle → node.Informs master node.commands.refresh.identity) ∧
    (∀ node : Node Firmware, node.Idle → node.Informs master node.commands.identity) ∧
    (∀ (flash : Flash) (chip : Chip) (curves : List Curve) (version : UInt32) (name : List UInt8)
      (address : UInt8) (events : List Event),
        let node := (Node.start (Firmware.start flash chip curves version name) address).run events
        node.Idle → ∀ target : UInt8, target = broadcast ∨ target = node.address →
          (Network.plug master node).Tells target (name.take Layout.nameMax)) ∧
    ∀ (flash : Flash) (chip : Chip) (version : UInt32) (address target : UInt8), flash.Readable →
      target = broadcast ∨ target = address →
        let network :=
          Network.plug master (Node.start (Bootloader.start flash chip version) address)
        (∀ info, checkFirmware flash = .ok info → network.Tells target
          ((flash.slice (SelfCheck.base + Layout.nameOffset)
            (min (info.size.toNat - Layout.nameOffset) Layout.nameMax)).takeWhile (· ≠ 0))) ∧
        ∀ error, checkFirmware flash = .error error → network.Tells target [] := by
  refine ⟨Session.fill_eq_run, fun node idle => idle.informs master,
    fun node idle => idle.informs master, ?_, ?_⟩
  · intro flash chip curves version name address events node idle target hTarget
    exact Firmware.tells_name flash chip curves version name address events rfl idle master hTarget
  · intro flash chip version address target readable hTarget network
    exact ⟨fun info h => Bootloader.tells_name chip version address master readable h hTarget,
      fun error h => Bootloader.tells_no_name chip version address master h hTarget⟩

/-- A firmware with a name of three bytes fills it up to five when it is asked for as many, and says
zeros when it is asked for an item that means nothing. Its name is learned in two exchanges, and so
is that in an image; where there is no image, one exchange is enough. -/
theorem data_answered_named :
    let firmware : Firmware := .start ⟨#[], [], [], [], #[]⟩ {} [] 0x0102 [108, 101, 100]
    let spoken (bytes : List UInt8) : List UInt8 :=
      ((Node.start firmware 5).run (bytes.map .byte ++ [.poll])).link.value.trace.written
    let bootloader (flash : Flash) : Node Bootloader := .start (.start flash {} 512) 3
    spoken [11, 0, 5, 2, 6, 0] = [108, 101, 100, 0, 0] ∧ spoken [8, 0, 5, 2, 6, 1] = [0, 0] ∧
      (Network.plug .bytewise (Node.start firmware 5)).Tells broadcast [108, 101, 100] ∧
      (∃ flash info, checkFirmware flash = .ok info ∧
        (Network.plug .bytewise (bootloader flash)).Tells 3 [108, 101, 100]) ∧
      ∃ flash error, checkFirmware flash = .error error ∧
        (Network.plug .bytewise (bootloader flash)).Tells 3 [] := by
  obtain ⟨_, _, hFirmware, hName, hBootloader⟩ := data_answered .bytewise
  have answers := (hFirmware
    (.start (.start ⟨#[], [], [], [], #[]⟩ {} [] 0x0102 [108, 101, 100]) 5)
    (idle_start _ _)).answers
  have hLong : toWire (⟨11, 5, .getData⟩ : Header) ++ toWire (6 : UInt16) =
      [11, 0, 5, 2, 6, 0] := by decide
  have hUnknown : toWire (⟨8, 5, .getData⟩ : Header) ++ toWire (0x0106 : UInt16) =
      [8, 0, 5, 2, 6, 1] := by decide
  have hFilled := answers ⟨11, 5, .getData⟩ 6 _ rfl (by decide) (by decide)
    (by rw [hLong]; exact .bytes _)
  have hZeros := answers ⟨8, 5, .getData⟩ 0x0106 _ rfl (by decide) (by decide)
    (by rw [hUnknown]; exact .bytes _)
  refine ⟨hFilled.2.2.trans (by decide), hZeros.2.2.trans (by decide), ?_, ?_, ?_⟩
  · exact hName ⟨#[], [], [], [], #[]⟩ {} [] 0x0102 [108, 101, 100] 5 [] (idle_start _ _)
      broadcast (.inl rfl)
  · have hFront : (List.replicate Layout.nameOffset (0 : UInt8)).length = Layout.nameOffset :=
      List.length_replicate
    have hData : (List.replicate Layout.nameOffset (0 : UInt8) ++ [108, 101, 100]).length =
        Layout.nameOffset + 3 := by
      rw [List.length_append, hFront]
      rfl
    obtain ⟨image, hImage⟩ := Host.Image.prepare_total
      (by rw [hData]; decide : Layout.nameOffset ≤ _) (by rw [hData]; decide)
    have formed := Host.Image.wellFormed_of_prepare hImage
    have readable : image.installed.Readable := nofun
    have hCheck := Host.Image.checkFirmware_installed formed
    have hTells := (hBootloader image.installed {} 512 3 3 readable (.inr rfl)).1 _ hCheck
    have hInside : SelfCheck.limit ≤ image.installed.bytes.size := by
      rw [Host.Image.size_installed formed]
      exact SelfCheck.limit_le_flashSize
    rw [← firmwareName_of_ok readable hCheck,
      firmwareName_of_held readable hInside formed image.slice_installed,
      Host.Image.name_of_prepare hImage, List.drop_left' hFront] at hTells
    exact ⟨image.installed, image.info, hCheck, hTells⟩
  · have readable : (⟨#[], [], [], [], #[]⟩ : Flash).Readable := nofun
    have hEmpty : checkFirmware ⟨#[], [], [], [], #[]⟩ = .error (.flash .outOfBounds) := rfl
    exact ⟨_, _, hEmpty, (hBootloader _ {} 512 3 3 readable (.inr rfl)).2 _ hEmpty⟩

end Multidrop
