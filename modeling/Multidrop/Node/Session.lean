import Multidrop.Line
import Multidrop.Wire.Header

/-!
The line as it is lent to a command while a request executes. A command says what it wants done as a
list of actions; taking the line before the first bytes and giving it back after the last ones is
not left to it.
-/

namespace Multidrop

/-- What a command may do while it executes. -/
inductive Action where
  | send (bytes : List UInt8)
  /-- Send one byte over and over until the declared length is reached. -/
  | fill (byte : UInt8)
  | setAddress (address : UInt8)
  deriving DecidableEq

/-- The line during the execution of one request. -/
structure Session where
  header : Header
  /-- How many bytes the exchange took so far, the request included. -/
  position : Nat
  address : UInt8
  /-- Whether the line was taken. -/
  transmitting : Bool
  trace : Line.Trace
  deriving DecidableEq

namespace Session

/-- How many bytes the packet still declares. -/
def remaining (session : Session) : Nat :=
  session.header.length.toNat - session.position

/-- Takes the line unless it is taken already. -/
def take (session : Session) : Session :=
  if session.transmitting then session
  else { session with transmitting := true, trace := session.trace.push .transmit }

/-- Sends bytes, taking the line first. -/
def send (session : Session) (bytes : List UInt8) : Session :=
  let session := session.take
  { session with
    trace := session.trace.push (.write bytes)
    position := session.position + bytes.length }

@[simp] theorem remaining_send (session : Session) (bytes : List UInt8) :
    (session.send bytes).remaining = session.remaining - bytes.length := by
  simp only [send, take, remaining]
  split <;> simp only [Nat.sub_sub]

/-- How many bytes a filling writes at a time. -/
def fillChunk : Nat := 16

/-- Sends a byte until the declared length is reached, some at a time. -/
def fill (session : Session) (byte : UInt8) : Session :=
  let size := min session.remaining fillChunk
  if size = 0 then session
  else (session.send (List.replicate size byte)).fill byte
termination_by session.remaining
decreasing_by
  simp only [remaining_send, List.length_replicate]
  omega

def perform (session : Session) : Action → Session
  | .send bytes => session.send bytes
  | .fill byte => session.fill byte
  | .setAddress address => { session with address }

def run (session : Session) (actions : List Action) : Session :=
  actions.foldl perform session

/-- The calls of the whole session once the line is given back and the packet is over. -/
def close (session : Session) : Line.Trace :=
  if session.transmitting then
    ((session.trace.push .flush).push .receive).push .stopTimer
  else session.trace.push .stopTimer

end Session

end Multidrop
