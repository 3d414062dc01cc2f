import Multidrop.Packed

/-!
The checksum that both ends of the bus compute over pages and images: a 32 bit cyclic redundancy
check with generator `0x04C11DB7`, fed with little-endian words from their most significant bit on,
neither reflected nor inverted at the end. A word is consumed half a byte at a time from a table.
-/

namespace Multidrop

/-- A checksum in progress. -/
structure Checksum where
  value : UInt32
  deriving DecidableEq

namespace Checksum

/-- Where every checksum exchanged on the bus starts. -/
def seed : UInt32 := 0xFFFFFFFF

/-- What the four bits shifted out of the register put back into it. -/
def table : Array UInt32 := #[
  0x00000000, 0x04C11DB7, 0x09823B6E, 0x0D4326D9, 0x130476DC, 0x17C56B6B, 0x1A864DB2, 0x1E475005,
  0x2608EDB8, 0x22C9F00F, 0x2F8AD6D6, 0x2B4BCB61, 0x350C9B64, 0x31CD86D3, 0x3C8EA00A, 0x384FBDBD]

/-- Shifts four bits out of the register. -/
def shift (register : UInt32) : UInt32 :=
  (register <<< 4) ^^^ table.getD (register >>> 28).toNat 0

def start : Checksum := ⟨seed⟩

def word (checksum : Checksum) (word : UInt32) : Checksum :=
  ⟨Nat.repeat shift 8 (checksum.value ^^^ word)⟩

/-- Consumes bytes as whole words, a last partial word being padded with zeros. -/
def update (checksum : Checksum) (bytes : List UInt8) : Checksum :=
  (words bytes).foldl word checksum

end Checksum

/-- The checksum of `bytes` started from `seed`. -/
def checksumFrom (seed : UInt32) (bytes : List UInt8) : UInt32 :=
  (Checksum.update ⟨seed⟩ bytes).value

/-- The checksum of `bytes` as exchanged on the bus. -/
def checksum (bytes : List UInt8) : UInt32 :=
  checksumFrom Checksum.seed bytes

end Multidrop
