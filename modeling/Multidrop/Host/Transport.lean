import Multidrop.Host.Error

/-!
The host's way to the bus. A transport knows nothing of packets: it moves bytes and reports silence
as short reads. Calls of the host run in any monad that has one.
-/

namespace Multidrop.Host

/-- How a host is set up. -/
structure Settings where
  baudRate : Nat := 500000
  /-- How many milliseconds to wait for an answer before the bus counts as silent. -/
  timeout : Nat := 1000
  /-- How many milliseconds to wait for a transfer to the bridge. -/
  transmitTimeout : Nat := 20
  /-- How often the status of a flashed page is asked for. -/
  flashAttempts : Nat := 10
  /-- How many milliseconds go by between two of these attempts. -/
  flashRetryDelay : Nat := 100
  deriving DecidableEq

/-- A way to the bus. -/
class Transport (m : Type → Type) where
  /-- Put bytes on the bus. -/
  transmit : List UInt8 → m (Except Error Unit)
  /-- Up to so many bytes from the bus. There are fewer when the bus stays silent. -/
  receive : Nat → m (Except Error (List UInt8))
  /-- Let so many milliseconds go by. -/
  pause : Nat → m Unit

/-- A transport serves as well where there are surroundings to look at. -/
instance {ρ : Type} {m : Type → Type} [Transport m] : Transport (ReaderT ρ m) where
  transmit bytes := fun _ => Transport.transmit bytes
  receive size := fun _ => Transport.receive size
  pause milliseconds := fun _ => Transport.pause milliseconds

/-- A call of the host, which can fail. -/
abbrev Call (m : Type → Type) (α : Type) :=
  ExceptT Error m α

namespace Call

variable {m : Type → Type} [Monad m] [Transport m]

def transmit (bytes : List UInt8) : Call m Unit :=
  ExceptT.mk (Transport.transmit bytes)

/-- Up to `size` bytes from the bus, and never more. -/
def receive (size : Nat) : Call m (List UInt8) :=
  (·.take size) <$> ExceptT.mk (Transport.receive (m := m) size)

def pause (milliseconds : Nat) : Call m Unit :=
  ExceptT.lift (Transport.pause milliseconds)

end Call

/-- A transport that follows a script and keeps what was asked of it. When the script is over,
nothing more is received and everything is transmitted. -/
structure Script where
  /-- The outcomes of the next calls that receive. Bytes beyond what a call asks for are lost. -/
  receives : List (Except Error (List UInt8))
  /-- The outcomes of the next calls that transmit. -/
  transmits : List (Except Error Unit)
  /-- The packets transmitted so far, oldest first, whether it worked or not. -/
  packets : Array (List UInt8)
  /-- How many bytes were asked for by the calls that received so far. -/
  reads : Array Nat

instance : Transport (StateM Script) where
  transmit bytes := fun script =>
    let script := { script with packets := script.packets.push bytes }
    match script.transmits with
    | [] => (.ok (), script)
    | outcome :: transmits => (outcome, { script with transmits })
  receive size := fun script =>
    let script := { script with reads := script.reads.push size }
    match script.receives with
    | [] => (.ok [], script)
    | .error error :: receives => (.error error, { script with receives })
    | .ok bytes :: receives => (.ok (bytes.take size), { script with receives })
  pause _ := pure ()

end Multidrop.Host
