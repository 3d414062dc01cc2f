import Multidrop.Checksum
import Multidrop.Field
import Multidrop.Host.Error

/-!
Firmware images ready for flashing. An image is padded with zeros to whole pages, then its size and
its checksum are put in place, the checksum being computed while its own place holds zero.
-/

namespace Multidrop.Host

/-- A firmware image ready for flashing. -/
structure Image where
  bytes : List UInt8
  deriving DecidableEq

namespace Image

/-- The smallest whole number of pages that holds so many bytes, in bytes. -/
def paddedSize (length : Nat) : Nat :=
  (length + (Layout.pageSize - 1)) / Layout.pageSize * Layout.pageSize

/-- Makes an image of the contents of a file. -/
def prepare (data : List UInt8) : Except Error Image :=
  if data.length < Layout.nameOffset then .error (.image .tooSmall)
  else if Layout.firmwareMaxSize < data.length then .error (.image .tooLarge)
  else
    let size := paddedSize data.length
    let padded := data ++ List.replicate (size - data.length) 0
    let sized := ImageInfo.sizeField.put padded (UInt32.ofNat size)
    let cleared := ImageInfo.checksumField.put sized 0
    .ok ⟨ImageInfo.checksumField.put cleared (checksum cleared)⟩

def info (image : Image) : ImageInfo where
  version := (ImageInfo.versionField.get? image.bytes).getD 0
  size := (ImageInfo.sizeField.get? image.bytes).getD 0
  checksum := (ImageInfo.checksumField.get? image.bytes).getD 0

/-- The pages of the image, each with its index in flash. -/
def pages (image : Image) : List (UInt16 × List UInt8) :=
  (List.range (image.bytes.length / Layout.pageSize)).map fun i =>
    (UInt16.ofNat (Layout.firmwareStartPage + i),
      (image.bytes.drop (i * Layout.pageSize)).take Layout.pageSize)

end Image

end Multidrop.Host
