import Multidrop.Node.CommandSet

/-!
The framer of a node: which packet is on the line and how far it has come, one byte at a time. There
is no delimiter. A packet is over once as many bytes as its header declares went through the line,
the reply included, or when the line stays silent for too long.
-/

namespace Multidrop

/-- The packet on the line. -/
inductive Packet where
  /-- Fewer than four bytes have come. Between packets there are none. -/
  | opening (bytes : List UInt8)
  /-- The header is known and the rest goes by, perhaps into a collector. -/
  | passing (header : Header) (position : Nat) (collector : Option Collector)
  /-- A request waits for execution. -/
  | ready (request : Request) (position : Nat)
  deriving DecidableEq

namespace Packet

/-- Nothing is on the line. -/
def idle : Packet := opening []

/-- How many bytes of the packet went by. -/
def position : Packet → Nat
  | opening bytes => bytes.length
  | passing _ position _ => position
  | ready _ position => position

/-- The length the packet declares, known as soon as two bytes have come. -/
def declared? : Packet → Option Nat
  | opening bytes => if 2 ≤ bytes.length then some (ofDigits (bytes.take 2)) else none
  | passing header _ _ => some header.length.toNat
  | ready request _ => some request.header.length.toNat

def isReady : Packet → Bool
  | ready .. => true
  | _ => false

/-- Whether as many bytes went by as the packet declares. -/
def isOver (packet : Packet) : Bool :=
  match packet.declared? with
  | some length => length ≤ packet.position
  | none => false

end Packet

/-- The state of a framer. -/
structure Link (C : Type) where
  commands : C
  /-- The address by which packets are told apart. -/
  address : UInt8
  packet : Packet
  /-- What was asked of the line so far. -/
  trace : Line.Trace

namespace Link

variable {C : Type}

/-- A framer between packets that asked nothing of the line yet. -/
def idle (commands : C) (address : UInt8) : Link C :=
  ⟨commands, address, .idle, #[]⟩

/-- How many bytes of the packet in progress went by, none between packets. -/
def position (link : Link C) : Nat :=
  link.packet.position

def call (link : Link C) (call : Line.Call) : Link C :=
  { link with trace := link.trace.push call }

/-- Ends the packet and waits for the next one. -/
def endPacket (link : Link C) : Link C :=
  { link with packet := .idle }.call .stopTimer

/-- The line stayed silent for too long. A request that is ready is not dropped. -/
def timeout (link : Link C) : Link C :=
  if link.packet.isReady then link else link.endPacket

/-- Gives the line back for good, dropping even a request that is ready. -/
def release (link : Link C) : Link C :=
  link.endPacket

/-- Changes the command set behind the back of the framer. -/
def mapCommands {D : Type} (change : C → D) (link : Link C) : Link D :=
  match link with
  | ⟨commands, address, packet, trace⟩ => ⟨change commands, address, packet, trace⟩

/-- The calls made so far, and the framer without them. -/
def takeTrace (link : Link C) : Line.Trace × Link C :=
  (link.trace, { link with trace := #[] })

variable [CommandSet C]

/-- The header is complete. The command set is asked only about packets for this node. -/
def openPacket (link : Link C) (header : Header) : Link C :=
  if header.targets link.address then
    match CommandSet.accept link.commands header with
    | (.ignore, commands) => { link with commands, packet := .passing header Header.size none }
    | (.execute, commands) => { link with commands, packet := .ready ⟨header, .empty⟩ Header.size }
    | (.collect kind, commands) =>
      { link with commands, packet := .passing header Header.size (some (.fresh kind)) }
  else { link with packet := .passing header Header.size none }

/-- Takes one byte into the packet in progress. -/
def count (link : Link C) (byte : UInt8) : Link C :=
  match link.packet with
  | .opening bytes =>
    let bytes := bytes ++ [byte]
    if bytes.length < Header.size then { link with packet := .opening bytes }
    else link.openPacket (ofWire bytes)
  | .passing header position none => { link with packet := .passing header (position + 1) none }
  | .passing header position (some collector) =>
    match collector.feed byte (position + 1) header with
    | (_, some payload) => { link with packet := .ready ⟨header, payload⟩ (position + 1) }
    | (collector, none) => { link with packet := .passing header (position + 1) (some collector) }
  | .ready .. => link

/-- What follows a byte: a request that became ready stops the timer, and a packet that reached its
declared length ends. -/
def settle (link : Link C) : Link C :=
  if link.packet.isReady then link.call .stopTimer
  else if link.packet.isOver then link.endPacket
  else link

/-- A byte came from the line. While a request waits, bytes are not looked at. -/
def receive (link : Link C) (byte : UInt8) : Link C :=
  if link.packet.isReady then link else ((link.call .restartTimer).count byte).settle

/-- Executes the request that is ready and ends its packet. -/
def execute (link : Link C) : Option Command × Link C :=
  match link with
  | ⟨commands, address, .ready request position, trace⟩ =>
    let session : Session := ⟨request.header, position, address, false, trace⟩
    match CommandSet.execute commands request session with
    | (actions, commands) =>
      let session := session.run actions
      (some request.header.command, ⟨commands, session.address, .idle, session.close⟩)
  | link => (none, link)

end Link

end Multidrop
