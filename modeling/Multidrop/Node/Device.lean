import Multidrop.Node.Bootloader
import Multidrop.Node.Firmware
import Multidrop.Node.Scripted

/-!
Nodes of different kinds on one bus: whatever runs on a node, it has a flash and a chip, which
outlive it when the node is reset and something else is started.
-/

namespace Multidrop

/-- What runs on a node. -/
inductive Device where
  | bootloader (set : Bootloader)
  | firmware (set : Firmware)
  | scripted (set : Scripted)

namespace Device

def accept (device : Device) (header : Header) : Accept × Device :=
  match device with
  | bootloader set =>
    let (accept, set) := CommandSet.accept set header
    (accept, bootloader set)
  | firmware set =>
    let (accept, set) := CommandSet.accept set header
    (accept, firmware set)
  | scripted set =>
    let (accept, set) := CommandSet.accept set header
    (accept, scripted set)

def execute (device : Device) (request : Request) (session : Session) : List Action × Device :=
  match device with
  | bootloader set =>
    let (actions, set) := CommandSet.execute set request session
    (actions, bootloader set)
  | firmware set =>
    let (actions, set) := CommandSet.execute set request session
    (actions, firmware set)
  | scripted set =>
    let (actions, set) := CommandSet.execute set request session
    (actions, scripted set)

instance : CommandSet Device where
  accept := accept
  execute := execute

def flash : Device → Flash
  | bootloader set => set.flash
  | firmware set => set.flash
  | scripted set => set.flash

def chip : Device → Chip
  | bootloader set => set.chip
  | firmware set => set.chip
  | scripted set => set.chip

/-- Changes the flash behind the back of what runs. -/
def mapFlash (change : Flash → Flash) : Device → Device
  | bootloader ⟨flash, chip, version, checked, identity, stale⟩ =>
    bootloader ⟨change flash, chip, version, checked, identity, stale⟩
  | firmware ⟨flash, chip, identity, leds, commits⟩ =>
    firmware ⟨change flash, chip, identity, leds, commits⟩
  | scripted ⟨flash, chip, accepts, actions, log⟩ =>
    scripted ⟨change flash, chip, accepts, actions, log⟩

/-- Changes the chip behind the back of what runs. -/
def mapChip (change : Chip → Chip) : Device → Device
  | bootloader set => bootloader { set with chip := change set.chip }
  | firmware set => firmware { set with chip := change set.chip }
  | scripted set => scripted { set with chip := change set.chip }

/-- The values of the output channels, if there are channels. -/
def leds : Device → Option (List UInt16)
  | firmware set => some set.leds.values
  | _ => none

/-- The values applied to the outputs so far. -/
def commits : Device → List (List UInt16)
  | firmware set => set.commits.toList
  | _ => []

def log : Device → List Scripted.Entry
  | scripted set => set.log.toList
  | _ => []

/-- The device without what it keeps of its past. -/
def forget (device : Device) : Device :=
  match device with
  | firmware set => firmware { set with commits := #[] }
  | scripted set => scripted { set with log := #[] }
  | device => device

end Device

end Multidrop
