/-!
Fixed-width values as bytes. A packed type has a width in bytes and two byte orders; the wire uses
the little one. Numbers are written through their base-256 digits, so that the width and the order
are the only choices an instance makes.
-/

namespace Multidrop

/-- Which end of a fixed-width number comes first. -/
inductive ByteOrder where
  | little
  | big
  deriving DecidableEq

/-- The `width` lowest base-256 digits of a number, least significant first. -/
def digits : (width number : Nat) → List UInt8
  | 0, _ => []
  | width + 1, number => UInt8.ofNat number :: digits width (number / 256)

/-- The number with the given base-256 digits, least significant first. -/
def ofDigits : List UInt8 → Nat
  | [] => 0
  | byte :: rest => byte.toNat + 256 * ofDigits rest

/-- Digits listed from the least significant one, put in the given order. The same step brings them
back, since reversing twice changes nothing. -/
def ByteOrder.arrange : ByteOrder → List UInt8 → List UInt8
  | .little, bytes => bytes
  | .big, bytes => bytes.reverse

/-- A type whose values all take the same number of bytes. -/
class Packed (α : Type) where
  /-- How many bytes a value takes. -/
  size : Nat
  pack : ByteOrder → α → List UInt8
  /-- The value of exactly `size` bytes. -/
  unpack : ByteOrder → List UInt8 → α

namespace Packed

instance : Packed UInt8 where
  size := 1
  pack order value := order.arrange (digits 1 value.toNat)
  unpack order bytes := UInt8.ofNat (ofDigits (order.arrange bytes))

instance : Packed UInt16 where
  size := 2
  pack order value := order.arrange (digits 2 value.toNat)
  unpack order bytes := UInt16.ofNat (ofDigits (order.arrange bytes))

instance : Packed UInt32 where
  size := 4
  pack order value := order.arrange (digits 4 value.toNat)
  unpack order bytes := UInt32.ofNat (ofDigits (order.arrange bytes))

instance : Packed UInt64 where
  size := 8
  pack order value := order.arrange (digits 8 value.toNat)
  unpack order bytes := UInt64.ofNat (ofDigits (order.arrange bytes))

/-- A signed word is packed as the unsigned word with the same bits. -/
instance : Packed Int32 where
  size := 4
  pack order value := pack order value.toUInt32
  unpack order bytes := (unpack order bytes : UInt32).toInt32

/-- The value at the front of `bytes`, or none if they are too few to hold one. -/
def read? (α : Type) [Packed α] (bytes : List UInt8) : Option α :=
  if size α ≤ bytes.length then some (unpack .little (bytes.take (size α))) else none

end Packed

/-- The bytes of a value as they stand on the wire and in flash. -/
def toWire {α : Type} [Packed α] (value : α) : List UInt8 :=
  Packed.pack .little value

/-- The value of bytes as they stand on the wire and in flash. -/
def ofWire {α : Type} [Packed α] (bytes : List UInt8) : α :=
  Packed.unpack .little bytes

/-- The bytes taken four at a time as words, least significant byte first. Missing bytes of a last
partial word count as zeros. -/
def words : List UInt8 → List UInt32
  | [] => []
  | b₀ :: b₁ :: b₂ :: b₃ :: rest => ofWire [b₀, b₁, b₂, b₃] :: words rest
  | rest => [ofWire rest]

@[simp] theorem length_digits (width number : Nat) : (digits width number).length = width := by
  induction width generalizing number with
  | zero => rfl
  | succ width ih => simp [digits, ih]

theorem ofDigits_digits (width number : Nat) :
    ofDigits (digits width number) = number % Nat.pow 256 width := by
  induction width generalizing number with
  | zero => simp [digits, ofDigits, Nat.mod_one]
  | succ width ih =>
    have split : number % (256 * Nat.pow 256 width) = _ := Nat.mod_mul
    have power : Nat.pow 256 (width + 1) = 256 * Nat.pow 256 width := Nat.mul_comm ..
    simp only [digits, ofDigits, ih, UInt8.toNat_ofNat']
    rw [power, split]

theorem ofDigits_lt (bytes : List UInt8) : ofDigits bytes < Nat.pow 256 bytes.length := by
  induction bytes with
  | nil => simp [ofDigits]
  | cons byte rest ih =>
    have low := byte.toNat_lt
    have power : Nat.pow 256 (rest.length + 1) = 256 * Nat.pow 256 rest.length :=
      Nat.mul_comm ..
    rw [ofDigits, List.length_cons, power]
    omega

theorem digits_ofDigits (bytes : List UInt8) : digits bytes.length (ofDigits bytes) = bytes := by
  induction bytes with
  | nil => rfl
  | cons byte rest ih =>
    have low := byte.toNat_lt
    have quotient : (byte.toNat + 256 * ofDigits rest) / 256 = ofDigits rest := by omega
    have remainder : UInt8.ofNat (byte.toNat + 256 * ofDigits rest) = byte := by
      apply UInt8.toNat_inj.mp
      simp only [UInt8.toNat_ofNat']
      omega
    simp only [digits, ofDigits, List.length_cons, quotient, remainder, ih]

end Multidrop
