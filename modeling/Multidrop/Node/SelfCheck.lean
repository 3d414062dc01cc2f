import Multidrop.Checksum
import Multidrop.Field
import Multidrop.Flash
import Multidrop.Text.Hexadecimal

/-!
The check a firmware image has to pass before it is started. The image is as long as it says, and
its checksum is the one it holds, computed with the place of the checksum read as zero.
-/

namespace Multidrop

/-- Why a flashed firmware is not started. -/
inductive FirmwareError where
  /-- The size is more than fits, less than the image information takes, or not whole words. -/
  | size (declared : UInt32)
  | checksum (expected computed : UInt32)
  | flash (error : FlashError)
  deriving DecidableEq

def FirmwareError.message : FirmwareError → String
  | .size declared => s!"firmware size {Hexadecimal.short declared.toNat} is out of bounds"
  | .checksum expected computed =>
    s!"firmware checksum {Hexadecimal.word computed} doesn't match {Hexadecimal.word expected}"
  | .flash error => "flash read failed: " ++ error.name

namespace SelfCheck

def base : Nat := Layout.firmwareStart - Layout.flashBase

/-- How many bytes of an image are read at a time. -/
def chunk : Nat := 64

/-- Bytes that stand at `offset` in the image, those of the checksum read as zeros. -/
def masked (offset : Nat) (bytes : List UInt8) : List UInt8 :=
  bytes.mapIdx fun i byte =>
    if ImageInfo.checksumField.offset ≤ offset + i ∧
        offset + i < ImageInfo.checksumField.offset + ImageInfo.checksumField.size then 0
    else byte

/-- The checksum of the image from `offset` up to `size`, read in chunks. -/
def checksumFrom (flash : Flash) (size offset : Nat) (checksum : Checksum) :
    Except FlashError Checksum :=
  if offset < size then
    let length := min (size - offset) chunk
    match flash.read (base + offset) length with
    | .error error => .error error
    | .ok bytes => checksumFrom flash size (offset + length) (checksum.update (masked offset bytes))
  else .ok checksum
termination_by size - offset
decreasing_by
  simp only [chunk]
  omega

end SelfCheck

/-- Whether an image may have this size. -/
def ImageInfo.sizeFits (info : ImageInfo) : Bool :=
  Layout.nameOffset ≤ info.size.toNat && info.size.toNat ≤ Layout.firmwareMaxSize &&
    info.size.toNat % 4 == 0

/-- Checks the flashed image and gives what it says about itself. -/
def checkFirmware (flash : Flash) : Except FirmwareError ImageInfo :=
  match flash.read (SelfCheck.base + Layout.infoOffset) (Packed.size ImageInfo) with
  | .error error => .error (.flash error)
  | .ok bytes =>
    let info : ImageInfo := ofWire bytes
    if info.sizeFits then
      match SelfCheck.checksumFrom flash info.size.toNat 0 .start with
      | .error error => .error (.flash error)
      | .ok checksum =>
        if checksum.value = info.checksum then .ok info
        else .error (.checksum info.checksum checksum.value)
    else .error (.size info.size)

/-- The name of a flashed image, up to the zero byte that ends it. It does not reach past the image,
and a name that cannot be read is empty. -/
def firmwareName (flash : Flash) (info : ImageInfo) : List UInt8 :=
  let size := min (info.size.toNat - Layout.nameOffset) Layout.nameMax
  match flash.read (SelfCheck.base + Layout.nameOffset) size with
  | .ok bytes => bytes.takeWhile (· ≠ 0)
  | .error _ => []

end Multidrop
