import Multidrop.Wire.Code

/-!
The four bytes that open every packet. Their length counts the whole exchange, the reply included:
there is no delimiter on the line, so this number is how every listener knows when the exchange is
over.
-/

namespace Multidrop

/-- The address every node listens to. -/
def broadcast : UInt8 := 0xFF

/-- The address of a node that was never given one. -/
def unconfigured : UInt8 := 0

structure Header where
  /-- How many bytes the whole exchange takes, header and reply included. -/
  length : UInt16
  /-- The node asked, or `broadcast`. -/
  address : UInt8
  command : Command
  deriving DecidableEq

namespace Header

def size : Nat := 4

instance : Inhabited Header where
  default := ⟨0, 0, .nop⟩

/-- The fields follow one another, each in the byte order asked for. -/
instance : Packed Header where
  size := size
  pack order header :=
    Packed.pack order header.length ++ Packed.pack order header.address ++
      Packed.pack order header.command
  unpack order bytes :=
    { length := Packed.unpack order (bytes.take 2)
      address := Packed.unpack order ((bytes.drop 2).take 1)
      command := Packed.unpack order (bytes.drop 3) }

/-- The header of an exchange of `length` bytes; lengths beyond sixteen bits wrap. -/
def ofLength (length : Nat) (address : UInt8) (command : Command) : Header :=
  ⟨UInt16.ofNat length, address, command⟩

/-- Whether the node with this address has to process the packet. -/
def targets (header : Header) (address : UInt8) : Bool :=
  header.address == broadcast || header.address == address

end Header

/-- The length of an exchange with so many bytes of request payload and of reply. -/
def exchangeLength (payload reply : Nat) : Nat :=
  Header.size + payload + reply

end Multidrop
