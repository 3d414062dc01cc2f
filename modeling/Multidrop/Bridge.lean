import Multidrop.Line
import Multidrop.Ring

/-!
A bridge between a host and the bus. The bridge owns a transceiver that the host reaches through it,
and acts as the master of the bus. Each packet of the host starts with what is wanted: to put bytes
on the bus, to get the bytes that came in, or to get back what was sent, which tests the way to the
bridge alone.
-/

namespace Multidrop

/-- A bridge: what came in from the bus, and what was asked of the line. -/
structure Bridge where
  ring : Ring
  trace : Line.Trace

namespace Bridge

/-- How a host finds a bridge among its devices. -/
def vendor : UInt16 := 0xDEAD

def product : UInt16 := 0xCAFE

def outEndpoint : UInt8 := 0x01

def inEndpoint : UInt8 := 0x82

/-- How many bytes a packet of the host or an answer has at most. -/
def packetSize : Nat := 64

/-- Puts the rest of the packet on the bus. -/
def transmitRequest : UInt8 := 1

/-- Answers with what came in, as many bytes as the next byte of the packet says. -/
def receiveRequest : UInt8 := 2

/-- Answers with the rest of the packet. -/
def echoRequest : UInt8 := 3

def ringSize : Nat := 2048

/-- The silence, in microseconds, after which the bridge answers with what it has. -/
def receiveIdle : Nat := Line.idleTimeout + 300

/-- How many microseconds go by between two looks at an empty ring. -/
def pollDelay : Nat := 10

/-- A bridge that listens to the bus. -/
def start (ring : Ring) : Bridge :=
  ⟨ring, #[.receive]⟩

/-- What handling a packet came to. -/
structure Answer where
  /-- The bytes for the host, if the packet is one that is answered. -/
  reply : Option (List UInt8)
  delays : Nat
  deriving DecidableEq

/-- Takes up to `want` bytes from a ring. It looks at an empty ring again after each delay, until
the silence, in microseconds, reaches `receiveIdle`. During delay number `n` the bytes `arrivals n`
come in. Besides the bytes it gives the ring and how many delays there were since the first. -/
def collect (arrivals : Nat → List UInt8) (want silence delays : Nat) (ring : Ring) :
    List UInt8 × Nat × Ring :=
  if want = 0 then ([], delays, ring)
  else
    match ring.pop with
    | (some byte, ring) =>
      let (bytes, delays, ring) := collect arrivals (want - 1) 0 delays ring
      (byte :: bytes, delays, ring)
    | (none, ring) =>
      if receiveIdle ≤ silence then ([], delays, ring)
      else
        collect arrivals want (silence + pollDelay) (delays + 1) (ring.pushAll (arrivals delays))
termination_by (want, receiveIdle - silence)
decreasing_by
  · exact Prod.Lex.left _ _ (by omega)
  · exact Prod.Lex.right _ (by simp only [pollDelay]; omega)

/-- What comes in during each delay if bytes arrive at the given times, in microseconds after the
first look at the ring. Whatever arrives during a delay is there when it ends. -/
def scheduled (arrivals : List (Nat × List UInt8)) (delay : Nat) : List UInt8 :=
  arrivals.flatMap fun (time, bytes) =>
    if (time + (pollDelay - 1)) / pollDelay - 1 = delay then bytes else []

/-- Handles one packet of the host. While the bridge drives the line the bytes `overheard` come in,
which are noise or its own echo and are dropped. -/
def handle (bridge : Bridge) (request overheard : List UInt8) (arrivals : Nat → List UInt8) :
    Answer × Bridge :=
  match request with
  | [] => (⟨none, 0⟩, bridge)
  | command :: data =>
    if command = transmitRequest then
      let trace := ((bridge.trace.push .transmit).push (.write data)).push .flush
      (⟨none, 0⟩, ⟨(bridge.ring.pushAll overheard).clear, trace.push .receive⟩)
    else if command = receiveRequest then
      match data with
      | [] => (⟨none, 0⟩, bridge)
      | wanted :: _ =>
        let (bytes, delays, ring) :=
          collect arrivals (min wanted.toNat packetSize) 0 0 bridge.ring
        (⟨some bytes, delays⟩, { bridge with ring })
    else if command = echoRequest then (⟨some (data.take packetSize), 0⟩, bridge)
    else (⟨none, 0⟩, bridge)

end Bridge

end Multidrop
