import Multidrop.Packed

/-!
How the flash of a node is divided between the bootloader, the firmware and the configuration
store, and where a firmware image keeps what it says about itself.

```text
flashBase       +---------------------+
                | bootloader          |  bootloaderSize
firmwareStart   +---------------------+
                | vector table        |
                | image information   |  firmwareMaxSize
                | code and data       |
configStart     +---------------------+
                | configuration store |  configSize
                +---------------------+
```

Addresses are absolute, offsets are counted from the first byte of flash or of the image.
-/

namespace Multidrop

namespace Layout

/-- The unit in which flash is erased and transferred. -/
def pageSize : Nat := 1024

def flashBase : Nat := 0x08000000

def flashSize : Nat := 0x10000

/-- How much flash the bootloader keeps for itself. -/
def bootloaderSize : Nat := 0x1000

/-- The address of the firmware image, whose vector table comes first. -/
def firmwareStart : Nat := flashBase + bootloaderSize

def configStart : Nat := 0x0800C000

def configSize : Nat := 0x4000

/-- The largest image that fits between the bootloader and the configuration store. -/
def firmwareMaxSize : Nat := configStart - firmwareStart

/-- The index of the first page of the firmware image. -/
def firmwareStartPage : Nat := bootloaderSize / pageSize

/-- Where the image information starts in an image, right after the vector table. -/
def infoOffset : Nat := 0x150

/-- Where the name of an image starts; a zero byte ends it. -/
def nameOffset : Nat := infoOffset + 12

/-- How many bytes of a name are reported at most. -/
def nameMax : Nat := 64

def pageAddress (page : UInt16) : Nat :=
  flashBase + page.toNat * pageSize

/-- Whether the page lies in the region that the bootloader may overwrite. -/
def isFirmwarePage (page : UInt16) : Bool :=
  firmwareStart ≤ pageAddress page && pageAddress page < configStart

/-- The offset in flash of an address, if it lies in flash. -/
def flashOffset? (address : Nat) : Option Nat :=
  if flashBase ≤ address ∧ address - flashBase < flashSize then some (address - flashBase)
  else none

end Layout

/-- What a firmware image says about itself. -/
structure ImageInfo where
  /-- The version, in whatever format the firmware likes. -/
  version : UInt32
  size : UInt32
  /-- The checksum of the image, counting this field itself as zero. -/
  checksum : UInt32
  deriving DecidableEq

instance : Packed ImageInfo where
  size := 12
  pack order info :=
    Packed.pack order info.version ++ Packed.pack order info.size ++
      Packed.pack order info.checksum
  unpack order bytes :=
    { version := Packed.unpack order (bytes.take 4)
      size := Packed.unpack order ((bytes.drop 4).take 4)
      checksum := Packed.unpack order (bytes.drop 8) }

end Multidrop
