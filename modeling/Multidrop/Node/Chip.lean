import Multidrop.Wire.Code

/-!
The chip a node runs on, as far as its commands use it: a register and a version that survive a
reset, a strap, and the two ways to leave the code that runs.
-/

namespace Multidrop

/-- How to boot after the next reset. -/
inductive BootFlag where
  | normal
  | gotoBootloader
  /-- Start the firmware even if the strap asks for the bootloader. -/
  | enforceNormalBoot
  deriving DecidableEq

namespace BootFlag

instance : Coded BootFlag UInt32 where
  code
    | normal => 0
    | gotoBootloader => 1
    | enforceNormalBoot => 2
  ofCode
    | 1 => gotoBootloader
    | 2 => enforceNormalBoot
    | _ => normal

def name : BootFlag → String
  | normal => "Normal"
  | gotoBootloader => "GotoBootloader"
  | enforceNormalBoot => "EnforceNormalBoot"

end BootFlag

/-- What a chip can be told. -/
inductive Chip.Call where
  | setBootFlag (flag : BootFlag)
  | storeVersion (version : UInt32)
  | reset
  | boot (vectorTable : UInt32)
  deriving DecidableEq

/-- A chip, and what it was made to do. -/
structure Chip where
  /-- The register that holds the boot flag. -/
  flag : UInt32 := 0
  /-- Whether the hardware asks for the bootloader. -/
  strap : Bool := false
  /-- The version of the bootloader that started the firmware. -/
  bootloaderVersion : UInt32 := 0
  resets : Nat := 0
  /-- The vector tables that were booted, oldest first. -/
  boots : Array UInt32 := #[]
  /-- All that the chip was told, oldest first. -/
  calls : Array Chip.Call := #[]
  deriving DecidableEq

namespace Chip

def bootFlag (chip : Chip) : BootFlag :=
  Coded.ofCode chip.flag

def setBootFlag (chip : Chip) (flag : BootFlag) : Chip :=
  { chip with flag := Coded.code flag, calls := chip.calls.push (.setBootFlag flag) }

def storeVersion (chip : Chip) (version : UInt32) : Chip :=
  { chip with bootloaderVersion := version, calls := chip.calls.push (.storeVersion version) }

def reset (chip : Chip) : Chip :=
  { chip with resets := chip.resets + 1, calls := chip.calls.push .reset }

def boot (chip : Chip) (vectorTable : UInt32) : Chip :=
  { chip with boots := chip.boots.push vectorTable, calls := chip.calls.push (.boot vectorTable) }

end Chip

end Multidrop
