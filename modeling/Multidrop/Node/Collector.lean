import Multidrop.Wire.Payload

/-!
Payloads in the making. A collector takes the bytes that follow a header and gives the payload once
it has them all: payloads of a fixed size when they are full, output values when the packet reaches
its declared length.
-/

namespace Multidrop

/-- Which payload is collected. -/
inductive PayloadKind where
  | query
  | address
  | memory
  | page
  | leds (wide : Bool)
  deriving DecidableEq

/-- How many bytes of a payload are kept. Bytes beyond are dropped. -/
def PayloadKind.capacity : PayloadKind → Nat
  | query => 2
  | address => 1
  | memory => 4
  | page => pagePayload
  | leds _ => ledPayload

/-- The page written as an index, its data and its checksum. -/
def Page.ofBytes (bytes : Array UInt8) : Page where
  index := ofWire (bytes.extract 0 2).toList
  data := Vector.ofFn fun i => bytes.getD (2 + i) 0
  checksum := ofWire (bytes.extract (2 + Layout.pageSize) pagePayload).toList

/-- The output values written after their first channel, or none if the channel is cut short. -/
def Leds.ofBytes? (wide : Bool) (bytes : Array UInt8) : Option Leds :=
  if 2 ≤ bytes.size then
    some
      { first := ofWire (bytes.extract 0 2).toList
        wide
        values := (bytes.extract 2 bytes.size).toList }
  else none

/-- A payload in the making. -/
structure Collector where
  kind : PayloadKind
  bytes : Array UInt8
  deriving DecidableEq

namespace Collector

/-- A collector that has no bytes yet. -/
def fresh (kind : PayloadKind) : Collector :=
  ⟨kind, #[]⟩

/-- The collector with one more byte, unless it is full. -/
def push (collector : Collector) (byte : UInt8) : Collector :=
  if collector.bytes.size < collector.kind.capacity then
    { collector with bytes := collector.bytes.push byte }
  else collector

/-- What the bytes collected mean. -/
def decode? (collector : Collector) : Option Payload :=
  match collector.kind with
  | .query => some (.query (ofWire collector.bytes.toList))
  | .address => some (.address (ofWire collector.bytes.toList))
  | .memory => some (.memory (ofWire collector.bytes.toList))
  | .page => some (.page (Page.ofBytes collector.bytes))
  | .leds wide => (Leds.ofBytes? wide collector.bytes).map Payload.leds

/-- Whether the payload is complete once `position` bytes of the packet went by. -/
def isComplete (collector : Collector) (position : Nat) (header : Header) : Bool :=
  match collector.kind with
  | .leds _ => header.length.toNat ≤ position
  | kind => kind.capacity ≤ collector.bytes.size

/-- Takes one payload byte. The `position` in the packet counts it already. -/
def feed (collector : Collector) (byte : UInt8) (position : Nat) (header : Header) :
    Collector × Option Payload :=
  let collector := collector.push byte
  (collector, if collector.isComplete position header then collector.decode? else none)

/-- Takes payload bytes after `position` bytes of the packet, going on after a payload is complete.
Besides the position it comes to it gives the payloads, each with the position that completed it. -/
def feedAll (header : Header) (collector : Collector) (position : Nat) :
    List UInt8 → List (Nat × Payload) × Nat
  | [] => ([], position)
  | byte :: rest =>
    match collector.feed byte (position + 1) header with
    | (collector, payload) =>
      let (payloads, last) := collector.feedAll header (position + 1) rest
      ((payload.map (position + 1, ·)).toList ++ payloads, last)

end Collector

end Multidrop
