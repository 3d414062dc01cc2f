/-!
A byte queue between an interrupt that fills it and a loop that drains it. The counters of bytes
pushed and taken grow forever and wrap, so their difference is how many bytes are unread. All slots
hold unread bytes; pushing into a full ring overwrites the oldest byte.
-/

namespace Multidrop

/-- A ring of slots with the number of bytes pushed and taken. -/
structure Ring where
  slots : Array UInt8
  head : UInt64
  tail : UInt64
  deriving DecidableEq

namespace Ring

def empty (capacity : Nat) : Ring :=
  ⟨Array.replicate capacity 0, 0, 0⟩

def capacity (ring : Ring) : Nat :=
  ring.slots.size

/-- The slot of the byte with the given number. -/
def slot (ring : Ring) (counter : UInt64) : Nat :=
  counter.toNat % ring.capacity

def push (ring : Ring) (byte : UInt8) : Ring :=
  let slot := ring.slot ring.head
  { ring with slots := ring.slots.setIfInBounds slot byte, head := ring.head + 1 }

/-- The number of the oldest byte that was neither taken nor overwritten. -/
def oldest (ring : Ring) : UInt64 :=
  if ring.capacity < (ring.head - ring.tail).toNat then ring.head - UInt64.ofNat ring.capacity
  else ring.tail

/-- Takes the oldest unread byte, or none if there is none. -/
def pop (ring : Ring) : Option UInt8 × Ring :=
  if ring.head = ring.tail then (none, ring)
  else
    let tail := ring.oldest
    (some (ring.slots.getD (ring.slot tail) 0), { ring with tail := tail + 1 })

def clear (ring : Ring) : Ring :=
  { ring with tail := ring.head }

/-- How many bytes are unread and not overwritten. -/
def length (ring : Ring) : Nat :=
  min (ring.head - ring.tail).toNat ring.capacity

def isEmpty (ring : Ring) : Bool :=
  ring.length = 0

def pushAll (ring : Ring) (bytes : List UInt8) : Ring :=
  bytes.foldl push ring

/-- Takes bytes until there are none, and at most `count`. -/
def popMany (ring : Ring) : (count : Nat) → List UInt8 × Ring
  | 0 => ([], ring)
  | count + 1 =>
    match ring.pop with
    | (none, ring) => ([], ring)
    | (some byte, ring) =>
      let (bytes, ring) := ring.popMany count
      (byte :: bytes, ring)

end Ring

end Multidrop
