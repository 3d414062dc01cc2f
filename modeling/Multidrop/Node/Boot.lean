import Multidrop.Node.Chip

/-!
What a bootloader does after a reset: stay or start the firmware. A firmware that fails its check is
never started, so that an interrupted update leaves a node that can still be reached.
-/

namespace Multidrop

/-- Why the bootloader is running. -/
inductive Decision where
  | broken
  /-- The firmware asked for the bootloader before the reset. -/
  | requested
  /-- The hardware asks for the bootloader. -/
  | strapped
  /-- Nothing asks for the bootloader, which gives the host some time and then starts the
  firmware. -/
  | linger
  deriving DecidableEq

namespace Decision

def name : Decision → String
  | broken => "Broken"
  | requested => "Requested"
  | strapped => "Strapped"
  | linger => "Linger"

def all : List Decision :=
  [broken, requested, strapped, linger]

/-- How long, in milliseconds, the bootloader waits for a host before it starts a valid firmware. -/
def bootTimeout : Nat := 3000

/-- After how many milliseconds the firmware is started, or none to stay forever. -/
def timeout? : Decision → Option Nat
  | linger => some bootTimeout
  | _ => none

/-- The first reason that applies. -/
def decide (valid : Bool) (flag : BootFlag) (strap : Bool) : Decision :=
  if !valid then broken
  else if flag = .gotoBootloader then requested
  else if strap ∧ flag ≠ .enforceNormalBoot then strapped
  else linger

end Decision

end Multidrop
