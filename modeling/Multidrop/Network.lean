import Multidrop.Host.Transport
import Multidrop.Node

/-!
A bus with several stations and one master, without the delays of a real one. Whatever one station
says is heard by all the others and comes back to the master.
-/

namespace Multidrop

/-- Something attached to the bus. -/
class Station (S : Type) where
  /-- A byte came from the line. -/
  hear : S → UInt8 → S
  /-- The line stayed silent for too long. -/
  silence : S → S
  /-- Executes a request if one is ready, and gives the command and the bytes put on the line. -/
  serve : S → Option Command × List UInt8 × S

/-- A node is a station. Its trace is taken each time it is served. -/
instance {C : Type} [CommandSet C] : Station (Node C) where
  hear := Node.receive
  silence := Node.timeout
  serve node :=
    let (command, node) := node.poll
    let (trace, node) := node.takeTrace
    (command, trace.written, node)

/-- How the master of a bus speaks. -/
inductive Master where
  /-- The stations are served after each byte, and the line never falls silent. -/
  | bytewise
  /-- The stations are served once the master said everything. Before it speaks it forgets the
  replies that it did not receive, and perhaps waits until the line fell silent. -/
  | packetwise (waits : Bool)
  deriving DecidableEq

/-- A bus, seen from its master. -/
structure Network (S : Type) where
  stations : Array S
  /-- What the stations said and the master did not receive yet. -/
  replies : Array UInt8
  /-- The commands executed so far, each with the number of its station. -/
  executed : Array (Nat × Command)
  /-- What the master said so far. -/
  heard : Array UInt8
  master : Master

namespace Network

variable {S : Type} [Station S]

def hearAll (station : S) (bytes : List UInt8) : S :=
  bytes.foldl Station.hear station

/-- Serves one station. What it says is heard by the others at once. -/
def serve (network : Network S) (index : Nat) : Network S :=
  match network.stations[index]? with
  | none => network
  | some station =>
    let (command, said, station) := Station.serve station
    { network with
      stations := network.stations.mapIdx fun i other =>
        if i = index then station else hearAll other said
      replies := network.replies ++ said
      executed :=
        match command with
        | some command => network.executed.push (index, command)
        | none => network.executed }

def round (network : Network S) : Network S :=
  (List.range network.stations.size).foldl serve network

/-- Serves the stations round after round until nobody says anything, or until so many rounds went
by. -/
def settle (network : Network S) : (rounds : Nat) → Network S
  | 0 => network
  | rounds + 1 =>
    let next := network.round
    if next.replies.size = network.replies.size then next else next.settle rounds

/-- After how many rounds stations that never stop talking to each other are left alone. -/
def patience : Nat := 100000

/-- Bytes of the master, heard by all, and everything that follows from them. -/
def inject (network : Network S) (bytes : List UInt8) : Network S :=
  { network with stations := network.stations.map (hearAll · bytes) }.settle patience

def silence (network : Network S) : Network S :=
  { network with stations := network.stations.map Station.silence }

def transmit (network : Network S) (bytes : List UInt8) : Network S :=
  let network := { network with heard := network.heard ++ bytes }
  match network.master with
  | .bytewise => bytes.foldl (fun network byte => network.inject [byte]) network
  | .packetwise waits =>
    let network := { network with replies := #[] }
    (if waits then network.silence else network).inject bytes

def receive (network : Network S) (size : Nat) : List UInt8 × Network S :=
  ((network.replies.extract 0 size).toList,
    { network with replies := network.replies.extract size network.replies.size })

instance : Host.Transport (StateM (Network S)) where
  transmit bytes := fun network => (.ok (), network.transmit bytes)
  receive size := fun network =>
    let (bytes, network) := network.receive size
    (.ok bytes, network)
  pause _ := pure ()

end Network

end Multidrop
