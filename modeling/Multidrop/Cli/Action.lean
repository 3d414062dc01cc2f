import Multidrop.Host.Flashing

/-!
What the command line asks for, and how it is carried out on a bus.
-/

namespace Multidrop.Cli

/-- One thing to do on the bus. -/
inductive Action where
  | echo
  | ping (node : UInt8)
  | status (node : UInt8)
  | address (node : UInt8)
  | firmwareVersion (node : UInt8)
  | bootloaderVersion (node : UInt8)
  | firmwareName (node : UInt8)
  | getData (node : UInt8) (query size : UInt16)
  | setAddress (node address : UInt8)
  | eraseConfig (node : UInt8)
  | resetToBootloader (node : UInt8)
  | resetToFirmware (node : UInt8)
  | readMemory (node : UInt8) (location : UInt32) (length : UInt16)
  | ledSet16 (node : UInt8) (led : UInt16) (values : List UInt16)
  | ledSet8 (node : UInt8) (led : UInt16) (values : List UInt8)
  | ledCommit (node : UInt8)
  | flash (node : UInt8) (file : String)
  deriving DecidableEq

/-- A command line that was understood. -/
structure Invocation where
  /-- The serial line wired to the bus. Without one the bus is reached through a bridge. -/
  serial : Option String
  settings : Host.Settings
  action : Action
  deriving DecidableEq

/-- What the program needs besides a bus. -/
class Surroundings (m : Type → Type) where
  /-- Opens the serial line with a path, through which the transport works from then on. -/
  openSerial : String → Host.Settings → m (Except Host.Error Unit)
  /-- Looks for a bridge, through which the transport works from then on. -/
  openBridge : Host.Settings → m (Except Host.Error Unit)
  fileContents : String → m (Except Host.Error (List UInt8))

def line (text : String) : List UInt8 :=
  (text ++ "\n").toUTF8.toList

variable {m : Type → Type} [Monad m] [Host.Transport m] [Surroundings m]

def perform (settings : Host.Settings) (serial : Bool) : Action → Host.Call m (List UInt8)
  | .echo => if serial then throw (.misuse .noBridge) else pure (line "echo ok")
  | .ping node => do
    Host.ping node
    pure (line "got reply")
  | .status node => do
    let status ← Host.status node
    pure (line status.name)
  | .address node => do
    let address ← Host.nodeAddress node
    pure (line (toString address.toNat))
  | .firmwareVersion node => do
    let version ← Host.firmwareVersion node
    pure (line (Hexadecimal.digits version.toNat))
  | .bootloaderVersion node => do
    let version ← Host.bootloaderVersion node
    pure (line (Hexadecimal.digits version.toNat))
  | .firmwareName node => do
    let name ← Host.firmwareName node
    pure (line (if name.isEmpty then "<not assigned>" else name))
  | .getData node query size => Host.getData node query size.toNat
  | .setAddress node address => do
    Host.setAddress node address
    pure (line "success")
  | .eraseConfig node => do
    Host.eraseConfig node
    pure []
  | .resetToBootloader node => do
    Host.resetToBootloader node
    pure []
  | .resetToFirmware node => do
    Host.resetToFirmware node
    pure []
  | .readMemory node location length => Host.readMemory node location ((length.toNat + 3) / 4 * 4)
  | .ledSet16 node led values => do
    Host.ledSet16 node led values
    pure []
  | .ledSet8 node led values => do
    Host.ledSet8 node led values
    pure []
  | .ledCommit node => do
    Host.ledCommit node
    pure []
  | .flash node file => do
    let data ← ExceptT.mk (Surroundings.fileContents file)
    let image ← ExceptT.mk (pure (Host.Image.prepare data))
    Host.flashFirmware settings node image
    pure []

def Invocation.run (invocation : Invocation) : Host.Call m (List UInt8) := do
  match invocation.serial with
  | some path => ExceptT.mk (Surroundings.openSerial path invocation.settings)
  | none => ExceptT.mk (Surroundings.openBridge invocation.settings)
  perform invocation.settings invocation.serial.isSome invocation.action

end Multidrop.Cli
