import Multidrop.Node.Boot
import Multidrop.Node.SelfCheck
import Multidrop.Node.Shared

/-!
The resident bootloader: it replaces the firmware page by page, checking each step, and lets the
host read the flash back.
-/

namespace Multidrop

/-- A bootloader with the flash and the chip it owns. -/
structure Bootloader where
  flash : Flash
  chip : Chip
  /-- The version of the bootloader itself, handed to the firmware. -/
  version : UInt32
  /-- What the flashed firmware says about itself if it passed its check, as of the last check. -/
  firmware : Except FirmwareError ImageInfo
  /-- What `getData` answers, as of the last check. -/
  identity : Identity
  /-- Whether pages were flashed since the last check. -/
  stale : Bool

namespace Bootloader

/-- What a bootloader tells about itself, given the flash and the outcome of the check. -/
def identify (flash : Flash) (version : UInt32) :
    Except FirmwareError ImageInfo → Identity
  | .ok info => .named .inBootloader info.version version (firmwareName flash info)
  | .error _ => .named .inBootloader 0 version []

/-- A bootloader that just came up and checked the firmware. -/
def start (flash : Flash) (chip : Chip) (version : UInt32) : Bootloader :=
  let firmware := checkFirmware flash
  let identity := identify flash version firmware
  { flash, chip, version, firmware, identity, stale := false }

/-- Checks the firmware again if pages were flashed since the last check. -/
def refresh (bootloader : Bootloader) : Bootloader :=
  if bootloader.stale then start bootloader.flash bootloader.chip bootloader.version
  else bootloader

/-- The address kept in the configuration store. -/
def storedAddress (bootloader : Bootloader) : UInt8 :=
  Store.storedAddress bootloader.flash

def isValid (bootloader : Bootloader) : Bool :=
  bootloader.firmware.isOk

/-- What to do after a reset. -/
def decide (bootloader : Bootloader) : Decision :=
  .decide bootloader.isValid bootloader.chip.bootFlag bootloader.chip.strap

/-- Tells the chip which bootloader starts the firmware. -/
def storeVersion (bootloader : Bootloader) : Bootloader :=
  { bootloader with chip := bootloader.chip.storeVersion bootloader.version }

/-- Tells the chip to go on with the firmware. -/
def boot (bootloader : Bootloader) : Bootloader :=
  { bootloader with chip := bootloader.chip.boot (UInt32.ofNat Layout.firmwareStart) }

def startFirmware (bootloader : Bootloader) : Bootloader :=
  bootloader.storeVersion.boot

/-- How many bytes are read at a time to see whether a page is blank. -/
def blankChunk : Nat := 64

/-- Whether the page at `offset` reads as all ones. -/
def isBlank (flash : Flash) (offset : Nat) : Bool :=
  (List.range (Layout.pageSize / blankChunk)).all fun i =>
    match flash.read (offset + i * blankChunk) blankChunk with
    | .ok bytes => bytes.all (· == 0xFF)
    | .error _ => false

/-- Whether the bytes at `offset` read back as the given ones. -/
def readsBack (flash : Flash) (offset : Nat) (bytes : List UInt8) : Bool :=
  match flash.read offset bytes.length with
  | .ok found => found == bytes
  | .error _ => false

/-- Programs words from `offset` on, reading each one back, and stops at the first that fails. -/
def programVerified (flash : Flash) (offset : Nat) : List (List UInt8) → Bool × Flash
  | [] => (true, flash)
  | word :: rest =>
    match flash.program offset word with
    | (.error _, flash) => (false, flash)
    | (.ok (), flash) =>
      if readsBack flash offset word then programVerified flash (offset + word.length) rest
      else (false, flash)

def flashPage (flash : Flash) (page : Page) : FlashStatus × Flash :=
  if !Layout.isFirmwarePage page.index then (.badPage, flash)
  else if checksum page.data.toList ≠ page.checksum then (.badChecksum, flash)
  else
    let offset := Layout.pageAddress page.index - Layout.flashBase
    match flash.erase offset (offset + Layout.pageSize) with
    | (.error _, flash) => (.eraseFailed, flash)
    | (.ok (), flash) =>
      if isBlank flash offset then
        match programVerified flash offset ((words page.data.toList).map toWire) with
        | (true, flash) => (.success, flash)
        | (false, flash) => (.verifyFailed, flash)
      else (.eraseFailed, flash)

/-- The word at an address. Only flash can be read; anything else, and what cannot be read, reads as
zero. -/
def wordAt (flash : Flash) (address : UInt32) : List UInt8 :=
  match Layout.flashOffset? address.toNat with
  | some offset =>
    if offset + 4 ≤ Layout.flashSize then
      match flash.read offset 4 with
      | .ok bytes => bytes
      | .error _ => [0, 0, 0, 0]
    else [0, 0, 0, 0]
  | none => [0, 0, 0, 0]

/-- As many words as the packet declares, then their checksum. Addresses wrap. -/
def readMemory (flash : Flash) (address : UInt32) (session : Session) : List Action :=
  let count := (session.remaining - 4) / 4
  let found := (List.range count).map fun i => wordAt flash (address + 4 * UInt32.ofNat i)
  found.map Action.send ++ [.send (toWire (checksum found.flatten))]

def accept (header : Header) : Accept :=
  match header.command with
  | .resetToBootloader | .resetToFirmware => .execute
  | .readMemory => .collect .memory
  | .flashFirmware => .collect .page
  | _ => Shared.accept header

/-- Flashes a page and answers with its status. What was known of the firmware is out of date after
a page was written. -/
def replacePage (bootloader : Bootloader) (page : Page) : List Action × Bootloader :=
  match bootloader with
  | ⟨flash, chip, version, firmware, identity, stale⟩ =>
    match flashPage flash page with
    | (status, flash) =>
      ([.send (toWire status)],
        ⟨flash, chip, version, firmware, identity, stale || status == .success⟩)

/-- Executes a command that firmwares have as well. -/
def share (bootloader : Bootloader) (request : Request) (session : Session) :
    List Action × Bootloader :=
  match bootloader with
  | ⟨flash, chip, version, firmware, identity, stale⟩ =>
    match Shared.execute request session identity flash with
    | (actions, flash) => (actions, ⟨flash, chip, version, firmware, identity, stale⟩)

/-- Executes a request. Asked to reset to the bootloader it has nothing to do, being there; its main
loop takes notice. -/
def execute (bootloader : Bootloader) (request : Request) (session : Session) :
    List Action × Bootloader :=
  match request.header.command, request.payload with
  | .resetToBootloader, _ => ([], bootloader)
  | .resetToFirmware, _ =>
    ([], { bootloader with chip := (bootloader.chip.setBootFlag .enforceNormalBoot).reset })
  | .readMemory, .memory address => (readMemory bootloader.flash address session, bootloader)
  | .readMemory, _ => ([], bootloader)
  | .flashFirmware, .page page => bootloader.replacePage page
  | .flashFirmware, _ => ([], bootloader)
  | .getData, _ => bootloader.refresh.share request session
  | _, _ => bootloader.share request session

instance : CommandSet Bootloader where
  accept bootloader header := (accept header, bootloader)
  execute := execute

end Bootloader

end Multidrop
