import Multidrop.Checksum
import Multidrop.Host.Transport
import Multidrop.Text.Utf8
import Multidrop.Wire.Payload

/-!
What a host asks of the nodes. Every call addresses one node, or all of them through `broadcast`,
which makes sense for an answered request only with one node on the bus. A call waits for its answer
and retries nothing.
-/

namespace Multidrop.Host

/-- The packet of a request whose exchange ends after `reply` bytes of answer. -/
def packet (node : UInt8) (command : Command) (payload : List UInt8) (reply : Nat) :
    Except Error (List UInt8) :=
  let length := exchangeLength payload.length reply
  if 65535 < length then .error (.misuse .packetTooLong)
  else .ok (toWire (Header.ofLength length node command) ++ payload)

variable {m : Type → Type} [Monad m] [Transport m]

def request (node : UInt8) (command : Command) (payload : List UInt8) (reply : Nat) :
    Call m Unit := do
  match packet node command payload reply with
  | .error error => throw error
  | .ok bytes => Call.transmit bytes

/-- Exactly `size` bytes of answer. -/
def receiveExactly (size : Nat) : Call m (List UInt8) := do
  let bytes ← Call.receive size
  if bytes.length = 0 ∧ size ≠ 0 then throw .noAnswer
  else if bytes.length < size then throw (.brokenAnswer size bytes.length)
  else pure bytes

def ping (node : UInt8) : Call m Unit := do
  request node .ping [] 1
  let _ ← receiveExactly 1

/-- Asks for a data item and gives up to `size` bytes of it. Unknown items are answered with
zeros. -/
def getData (node : UInt8) (query : UInt16) (size : Nat) : Call m (List UInt8) := do
  request node .getData (toWire query) size
  let bytes ← Call.receive size
  if bytes.length = 0 ∧ size ≠ 0 then throw .noAnswer else pure bytes

def getItem (α : Type) [Packed α] (node : UInt8) (query : Query) : Call m α := do
  let bytes ← getData node (Coded.code query) (Packed.size α)
  match Packed.read? α bytes with
  | some item => pure item
  | none => throw (.brokenAnswer (Packed.size α) bytes.length)

def status (node : UInt8) : Call m NodeStatus :=
  getItem NodeStatus node .status

def nodeAddress (node : UInt8) : Call m UInt8 :=
  getItem UInt8 node .address

def firmwareVersion (node : UInt8) : Call m UInt32 :=
  getItem UInt32 node .firmwareVersion

def bootloaderVersion (node : UInt8) : Call m UInt32 :=
  getItem UInt32 node .bootloaderVersion

def firmwareNameLength (node : UInt8) : Call m UInt8 :=
  getItem UInt8 node .firmwareNameLength

/-- The bytes of the name of a node's firmware. There are none if it has no name. -/
def firmwareNameBytes (node : UInt8) : Call m (List UInt8) := do
  let length ← firmwareNameLength node
  if length = 0 then pure []
  else getData node (Coded.code Query.firmwareName) length.toNat

/-- The name of a node's firmware as text. -/
def firmwareName (node : UInt8) : Call m String := do
  let bytes ← firmwareNameBytes node
  pure (String.ofList (Utf8.decode bytes))

def setAddress (node new : UInt8) : Call m Unit := do
  if new = unconfigured ∨ new = broadcast then throw (.misuse .invalidAddress)
  else
    request node .setAddress (toWire new) 1
    let status : UInt8 := ofWire (← receiveExactly 1)
    if status = 0 then pure () else throw (.refused status)

/-- Erases the configuration of a node, its address included. -/
def eraseConfig (node : UInt8) : Call m Unit :=
  request node .eraseConfig [] 0

def resetToBootloader (node : UInt8) : Call m Unit :=
  request node .resetToBootloader [] 0

def resetToFirmware (node : UInt8) : Call m Unit :=
  request node .resetToFirmware [] 0

/-- Reads memory of a node in its bootloader, whole words and a page at most, and checks it against
the checksum of the node. -/
def readMemory (node : UInt8) (location : UInt32) (size : Nat) : Call m (List UInt8) := do
  if size % 4 ≠ 0 ∨ Layout.pageSize < size then throw (.misuse .invalidReadLength)
  else
    request node .readMemory (toWire location) (size + 4)
    let bytes ← receiveExactly size
    let received : UInt32 := ofWire (← receiveExactly 4)
    let expected := checksum bytes
    if received = expected then pure bytes else throw (.checksum expected received)

/-- Sets output channels from `first` on to wide values. It is not answered. -/
def ledSet16 (node : UInt8) (first : UInt16) (values : List UInt16) : Call m Unit := do
  if maxLedValues < values.length then throw (.misuse .tooManyValues)
  else request node .ledSet16 (toWire first ++ values.flatMap toWire) 0

/-- Sets output channels from `first` on through their curves. It is not answered. -/
def ledSet8 (node : UInt8) (first : UInt16) (values : List UInt8) : Call m Unit := do
  if maxLedValues < values.length then throw (.misuse .tooManyValues)
  else request node .ledSet8 (toWire first ++ values) 0

def ledCommit (node : UInt8) : Call m Unit :=
  request node .ledCommit [] 0

end Multidrop.Host
