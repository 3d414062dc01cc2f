import Multidrop.Packed

/-!
The numbered choices of the protocol. Every number is read as some choice: numbers without a
meaning are read as the choice the enumeration sets aside for them, so that a node keeps counting
the bytes of packets it does not understand.
-/

namespace Multidrop

/-- An enumeration whose values are numbers of type `ω` on the wire. -/
class Coded (α : Type) (ω : outParam Type) where
  code : α → ω
  /-- The choice of a number, with a fallback for the numbers that mean nothing. -/
  ofCode : ω → α

/-- A coded choice is packed as its number. -/
instance {α ω : Type} [Coded α ω] [Packed ω] : Packed α where
  size := Packed.size ω
  pack order choice := Packed.pack order (Coded.code choice)
  unpack order bytes := Coded.ofCode (Packed.unpack order bytes : ω)

/-- What a packet asks for. -/
inductive Command where
  | nop
  | ping
  | getData
  | ledSet16
  | ledCommit
  | ledSet8
  | resetToBootloader
  | eraseConfig
  | setAddress
  | readMemory
  | flashFirmware
  | resetToFirmware
  | unknown
  deriving DecidableEq

namespace Command

instance : Coded Command UInt8 where
  code
    | nop => 0
    | ping => 1
    | getData => 2
    | ledSet16 => 10
    | ledCommit => 11
    | ledSet8 => 12
    | resetToBootloader => 122
    | eraseConfig => 123
    | setAddress => 124
    | readMemory => 125
    | flashFirmware => 126
    | resetToFirmware => 127
    | unknown => 255
  ofCode
    | 0 => nop
    | 1 => ping
    | 2 => getData
    | 10 => ledSet16
    | 11 => ledCommit
    | 12 => ledSet8
    | 122 => resetToBootloader
    | 123 => eraseConfig
    | 124 => setAddress
    | 125 => readMemory
    | 126 => flashFirmware
    | 127 => resetToFirmware
    | _ => unknown

def name : Command → String
  | nop => "Nop"
  | ping => "Ping"
  | getData => "GetData"
  | ledSet16 => "LedSet16Bit"
  | ledCommit => "LedCommit"
  | ledSet8 => "LedSet8Bit"
  | resetToBootloader => "ResetToBootloader"
  | eraseConfig => "EraseConfig"
  | setAddress => "SetAddress"
  | readMemory => "ReadMemory"
  | flashFirmware => "FlashFirmware"
  | resetToFirmware => "ResetToFirmware"
  | unknown => "Unknown"

def all : List Command :=
  [nop, ping, getData, ledSet16, ledCommit, ledSet8, resetToBootloader, eraseConfig, setAddress,
    readMemory, flashFirmware, resetToFirmware, unknown]

end Command

/-- A data item a node can be asked for. -/
inductive Query where
  | status
  | address
  | firmwareVersion
  | bootloaderVersion
  | firmwareNameLength
  | firmwareName
  | unknown
  deriving DecidableEq

namespace Query

/-- A query takes two bytes on the wire, and all of both count: a number above 255 means nothing
even if its low byte would. -/
instance : Coded Query UInt16 where
  code
    | unknown => 0
    | status => 1
    | address => 2
    | firmwareVersion => 3
    | bootloaderVersion => 4
    | firmwareNameLength => 5
    | firmwareName => 6
  ofCode
    | 1 => status
    | 2 => address
    | 3 => firmwareVersion
    | 4 => bootloaderVersion
    | 5 => firmwareNameLength
    | 6 => firmwareName
    | _ => unknown

def name : Query → String
  | unknown => "Unknown"
  | status => "Status"
  | address => "Address"
  | firmwareVersion => "FirmwareVersion"
  | bootloaderVersion => "BootloaderVersion"
  | firmwareNameLength => "FirmwareNameLength"
  | firmwareName => "FirmwareName"

end Query

inductive NodeStatus where
  | inBootloader
  | inFirmware
  | unknown
  deriving DecidableEq

namespace NodeStatus

instance : Coded NodeStatus UInt8 where
  code
    | unknown => 0
    | inBootloader => 1
    | inFirmware => 2
  ofCode
    | 1 => inBootloader
    | 2 => inFirmware
    | _ => unknown

def name : NodeStatus → String
  | unknown => "Unknown"
  | inBootloader => "InBootloader"
  | inFirmware => "InFirmware"

end NodeStatus

/-- What became of a firmware page, in the order in which a node finds out. -/
inductive FlashStatus where
  | success
  /-- The page lies outside the firmware region. -/
  | badPage
  /-- The page does not match its checksum. -/
  | badChecksum
  /-- The page was not blank after it was erased. -/
  | eraseFailed
  /-- A word did not read back as it was programmed. -/
  | verifyFailed
  | unknown
  deriving DecidableEq

namespace FlashStatus

instance : Coded FlashStatus UInt8 where
  code
    | success => 0
    | badPage => 1
    | badChecksum => 2
    | eraseFailed => 3
    | verifyFailed => 4
    | unknown => 255
  ofCode
    | 0 => success
    | 1 => badPage
    | 2 => badChecksum
    | 3 => eraseFailed
    | 4 => verifyFailed
    | _ => unknown

def name : FlashStatus → String
  | success => "Success"
  | badPage => "BadPage"
  | badChecksum => "BadCrc"
  | eraseFailed => "EraseFailed"
  | verifyFailed => "VerifyFailed"
  | unknown => "Unknown"

end FlashStatus

end Multidrop
