import Multidrop.Text.Hexadecimal
import Multidrop.Wire.Code

/-!
What can go wrong when a host talks to the bus.
-/

namespace Multidrop.Host

/-- Why a request was not even sent. -/
inductive Misuse where
  | packetTooLong
  | invalidAddress
  | invalidReadLength
  | tooManyValues
  | noBridge
  deriving DecidableEq

def Misuse.message : Misuse → String
  | packetTooLong => "packet is longer than maximum allowed"
  | invalidAddress => "node address must be between 1 and 254"
  | invalidReadLength => "memory read length must be a multiple of 4 up to 1024"
  | tooManyValues => "too many values"
  | noBridge => "echo needs the USB bridge"

/-- Why a file is no firmware image. -/
inductive ImageFault where
  | tooSmall
  | tooLarge
  deriving DecidableEq

def ImageFault.message : ImageFault → String
  | tooSmall => "image too small to hold its metadata"
  | tooLarge => "image larger than firmware region"

/-- Why a call of the host failed. -/
inductive Error where
  | bus
  | deviceNotFound
  | noAnswer
  /-- The answer stopped before its end. -/
  | brokenAnswer (expected received : Nat)
  | checksum (expected received : UInt32)
  /-- The node answered that it did not do what it was asked to. -/
  | refused (status : UInt8)
  | misuse (reason : Misuse)
  | image (fault : ImageFault)
  /-- A page was not flashed. There is no status if the node never answered. -/
  | flash (page : UInt16) (status : Option FlashStatus)
  | timeout
  deriving DecidableEq

def shownStatus : Option FlashStatus → String
  | some status => s!"Some({status.name})"
  | none => "None"

def Error.message : Error → String
  | bus => "problem with bus transport"
  | deviceNotFound => "bus master device not found"
  | noAnswer => "no answer"
  | brokenAnswer expected received =>
    s!"broken answer, got {received} bytes out of {expected}"
  | checksum expected received =>
    s!"checksum mismatch, expected {Hexadecimal.word expected} received {Hexadecimal.word received}"
  | refused status => s!"node refused with status {status.toNat}"
  | misuse reason => "invalid use: " ++ reason.message
  | image fault => "bad firmware file: " ++ fault.message
  | flash page status =>
    s!"flashing page {page.toNat} failed with status {shownStatus status}"
  | timeout => "no data arrived in expected time"

end Multidrop.Host
