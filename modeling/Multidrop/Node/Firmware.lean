import Multidrop.Node.Chip
import Multidrop.Node.LedTable
import Multidrop.Node.Shared

/-!
The firmware of an application. Besides the shared commands it drives output channels, which the
host sets and then applies all at once, and it can be sent back to the bootloader.
-/

namespace Multidrop

/-- A firmware with the flash, the chip and the outputs it owns. -/
structure Firmware where
  flash : Flash
  chip : Chip
  identity : Identity
  leds : LedTable
  /-- The values applied to the outputs so far, oldest first. -/
  commits : Array (List UInt16)

namespace Firmware

/-- A firmware that just came up, with its own version and name. -/
def start (flash : Flash) (chip : Chip) (curves : List Curve) (version : UInt32)
    (name : List UInt8) : Firmware :=
  { flash
    chip
    identity := .named .inFirmware version chip.bootloaderVersion name
    leds := .off curves
    commits := #[] }

/-- The address kept in the configuration store. -/
def storedAddress (firmware : Firmware) : UInt8 :=
  Store.storedAddress firmware.flash

/-- The shortest packet that sets a channel: a header, a channel and a value of one byte. -/
def ledMinimum : UInt16 := 7

def accept (header : Header) : Accept :=
  match header.command with
  | .resetToBootloader | .ledCommit => .execute
  | .ledSet16 => if ledMinimum ≤ header.length then .collect (.leds true) else .ignore
  | .ledSet8 => if ledMinimum ≤ header.length then .collect (.leds false) else .ignore
  | _ => Shared.accept header

/-- Bytes taken two at a time as wide values. An odd last byte is dropped. -/
def wideValues : List UInt8 → List UInt16
  | low :: high :: rest => ofWire [low, high] :: wideValues rest
  | _ => []

def setLeds (table : LedTable) (leds : Leds) : LedTable :=
  if leds.wide then table.setWide leds.first (wideValues leds.values)
  else table.setNarrow leds.first leds.values

/-- Executes a command that bootloaders have as well. -/
def share (firmware : Firmware) (request : Request) (session : Session) : List Action × Firmware :=
  match firmware with
  | ⟨flash, chip, identity, leds, commits⟩ =>
    match Shared.execute request session identity flash with
    | (actions, flash) => (actions, ⟨flash, chip, identity, leds, commits⟩)

/-- Executes a request. Nothing but the shared commands is answered. -/
def execute (firmware : Firmware) (request : Request) (session : Session) :
    List Action × Firmware :=
  match request.header.command, request.payload with
  | .resetToBootloader, _ =>
    ([], { firmware with chip := (firmware.chip.setBootFlag .gotoBootloader).reset })
  | .ledCommit, _ => ([], { firmware with commits := firmware.commits.push firmware.leds.values })
  | .ledSet16, .leds leds | .ledSet8, .leds leds =>
    ([], { firmware with leds := setLeds firmware.leds leds })
  | .ledSet16, _ | .ledSet8, _ => ([], firmware)
  | _, _ => firmware.share request session

instance : CommandSet Firmware where
  accept firmware header := (accept header, firmware)
  execute := execute

end Firmware

end Multidrop
