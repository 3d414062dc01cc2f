import Multidrop.Host.Client
import Multidrop.Host.Image

/-!
Replacing the firmware of a node, page by page. The status of each page is asked for a bounded
number of times, and the first page that is not acknowledged ends the whole: the node is left with
part of an image, which its bootloader will refuse to start.
-/

namespace Multidrop.Host

variable {m : Type → Type} [Monad m] [Transport m]

def pageRequest (index : UInt16) (data : List UInt8) : List UInt8 :=
  toWire index ++ data ++ toWire (checksum data)

/-- The status of the page just sent, or none if it does not come in so many attempts. -/
def awaitStatus (delay : Nat) : (attempts : Nat) → Call m (Option FlashStatus)
  | 0 => pure none
  | attempts + 1 => do
    match ← Call.receive 1 with
    | [status] => pure (some (Coded.ofCode status))
    | _ =>
      Call.pause delay
      awaitStatus delay attempts

/-- Sends pages in order, each one only once the one before it is acknowledged. -/
def flashPages (settings : Settings) (node : UInt8) : List (UInt16 × List UInt8) → Call m Unit
  | [] => pure ()
  | (index, data) :: rest => do
    request node .flashFirmware (pageRequest index data) 1
    match ← awaitStatus settings.flashRetryDelay settings.flashAttempts with
    | some .success => flashPages settings node rest
    | status => throw (.flash index status)

def flashFirmware (settings : Settings) (node : UInt8) (image : Image) : Call m Unit :=
  flashPages settings node image.pages

end Multidrop.Host
