import Multidrop.Layout
import Multidrop.Wire.Header

/-!
The requests a node executes: a header and what the bytes after it mean.
-/

namespace Multidrop

/-- How many bytes a firmware page takes in a packet: its index, its data and its checksum. -/
def pagePayload : Nat := 2 + Layout.pageSize + 4

/-- How many output values one packet sets at most. -/
def maxLedValues : Nat := 1024

/-- How many bytes the largest packet of output values carries: a channel and wide values. -/
def ledPayload : Nat := 2 + 2 * maxLedValues

/-- A page of a firmware image on its way to a node. -/
structure Page where
  index : UInt16
  data : Vector UInt8 Layout.pageSize
  checksum : UInt32
  deriving DecidableEq

/-- Values for the outputs of a node. -/
structure Leds where
  /-- The channel that takes the first value. -/
  first : UInt16
  /-- Whether values take two bytes each, or one that goes through the curve of its channel. -/
  wide : Bool
  values : List UInt8
  deriving DecidableEq

/-- What the bytes after a header mean. -/
inductive Payload where
  | empty
  | query (item : Query)
  | address (value : UInt8)
  | memory (location : UInt32)
  | page (page : Page)
  | leds (leds : Leds)
  deriving DecidableEq

/-- A request ready for execution. -/
structure Request where
  header : Header
  payload : Payload
  deriving DecidableEq

end Multidrop
