import Multidrop.Layout

/-!
Typed places in a firmware image. The same field serves to prepare an image on the host and to read
it on the node, which is why it knows its offset in the image and not an address.
-/

namespace Multidrop

/-- The place of a value of type `α` in an image. -/
structure Field (α : Type) where
  /-- How far from the start of the image the value stands. -/
  offset : Nat

namespace Field

variable {α : Type} [Packed α]

def size (_field : Field α) : Nat :=
  Packed.size α

/-- The address of the value once the image is flashed. -/
def address (field : Field α) : Nat :=
  Layout.firmwareStart + field.offset

/-- The value in an image, or none if the image is too short to hold it. -/
def get? (field : Field α) (image : List UInt8) : Option α :=
  Packed.read? α (image.drop field.offset)

/-- The image with the value put in place, or none if it is too short to hold it. -/
def set? (field : Field α) (image : List UInt8) (value : α) : Option (List UInt8) :=
  if field.offset + field.size ≤ image.length then
    some (image.take field.offset ++ toWire value ++ image.drop (field.offset + field.size))
  else none

/-- The image with the value put in place, left alone if it is too short to hold it. -/
def put (field : Field α) (image : List UInt8) (value : α) : List UInt8 :=
  (field.set? image value).getD image

end Field

namespace ImageInfo

def versionField : Field UInt32 := ⟨Layout.infoOffset⟩

def sizeField : Field UInt32 := ⟨Layout.infoOffset + 4⟩

def checksumField : Field UInt32 := ⟨Layout.infoOffset + 8⟩

end ImageInfo

end Multidrop
