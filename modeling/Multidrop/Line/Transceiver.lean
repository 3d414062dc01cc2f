import Multidrop.Line
import Multidrop.Text.Hexadecimal

/-!
A transceiver for a differential line, driven through a serial unit, two enable pins, a delay and a
timer. The driver is enabled by a high pin, the receiver by a low one. The journal holds every
signal given to a part, and whether the part failed to obey it: a part that fails does not stop the
transceiver.
-/

namespace Multidrop

/-- What a transceiver is made of. -/
inductive Transceiver.Part where
  | uart
  | driver
  | receiver
  | delay
  | timer
  deriving DecidableEq

/-- What a transceiver does to its parts. -/
inductive Transceiver.Signal where
  | driver (high : Bool)
  | receiver (high : Bool)
  | delay (nanoseconds : Nat)
  | uartWrite (bytes : List UInt8)
  | uartFlush
  /-- The serial unit took no byte of a write. -/
  | uartFull
  | timerRestart
  | timerStop
  deriving DecidableEq

/-- A signal that was given to its part. -/
structure Transceiver.Entry where
  signal : Transceiver.Signal
  failed : Bool
  deriving DecidableEq

/-- A transceiver with its parts. -/
structure Transceiver where
  /-- The signals that make their part fail. -/
  fails : Transceiver.Signal → Bool
  /-- How many bytes the serial unit takes in one call, if there is a limit. -/
  chunk : Option Nat
  /-- How many bytes the serial unit still takes in all, if there is a limit. -/
  room : Option Nat
  journal : Array Transceiver.Entry

namespace Transceiver

def Part.name : Part → String
  | uart => "uart"
  | driver => "driver"
  | receiver => "receiver"
  | delay => "delay"
  | timer => "timer"

/-- The parts in the order in which they are given back. -/
def Part.all : List Part :=
  [uart, driver, receiver, delay, timer]

def Signal.text : Signal → String
  | driver high => if high then "driver high" else "driver low"
  | receiver high => if high then "receiver high" else "receiver low"
  | delay nanoseconds => s!"delay {nanoseconds}ns"
  | uartWrite bytes => "uart write " ++ Hexadecimal.bytes bytes
  | uartFlush => "uart flush"
  | uartFull => "uart full"
  | timerRestart => "timer restart"
  | timerStop => "timer stop"

def Entry.text (entry : Entry) : String :=
  if entry.failed then entry.signal.text ++ " failed" else entry.signal.text

/-- The bytes that a signal puts on the line. A write that fails has sent its bytes. -/
def Signal.sent : Signal → List UInt8
  | uartWrite bytes => bytes
  | _ => []

/-- How long, in microseconds, the other transceivers are given to release the line. -/
def turnaround : Nat := 2

def signal (transceiver : Transceiver) (signal : Signal) : Transceiver :=
  { transceiver with journal := transceiver.journal.push ⟨signal, transceiver.fails signal⟩ }

/-- The bytes that the serial unit takes of a write in one call. -/
def piece (transceiver : Transceiver) (bytes : List UInt8) : List UInt8 :=
  match transceiver.chunk, transceiver.room with
  | none, none => bytes
  | some limit, none | none, some limit => bytes.take limit
  | some chunk, some room => bytes.take (min chunk room)

/-- Writes bytes in as many calls as the serial unit needs, stopping at the first that fails. -/
def write (transceiver : Transceiver) (bytes : List UInt8) : Transceiver :=
  if bytes.isEmpty then transceiver
  else
    let piece := transceiver.piece bytes
    if piece.isEmpty then transceiver.signal .uartFull
    else
      let next :=
        { transceiver with room := transceiver.room.map (· - piece.length) }.signal
          (.uartWrite piece)
      if transceiver.fails (.uartWrite piece) then next
      else next.write (bytes.drop piece.length)
termination_by bytes.length
decreasing_by
  have nonempty : ¬bytes.isEmpty := by assumption
  have taken : ¬(transceiver.piece bytes).isEmpty := by assumption
  rw [List.isEmpty_iff, ← ne_eq, ← List.length_pos_iff] at nonempty taken
  rw [List.length_drop]
  exact Nat.sub_lt nonempty taken

def perform (transceiver : Transceiver) : Line.Call → Transceiver
  | .transmit =>
    ((transceiver.signal (.receiver true)).signal (.driver true)).signal
      (.delay (turnaround * 1000))
  | .receive => (transceiver.signal (.driver false)).signal (.receiver false)
  | .write bytes => transceiver.write bytes
  | .flush => transceiver.signal .uartFlush
  | .restartTimer => transceiver.signal .timerRestart
  | .stopTimer => transceiver.signal .timerStop

/-- The bytes put on the line by the signals of a journal. -/
def sent (journal : Array Entry) : List UInt8 :=
  journal.toList.flatMap fun entry => entry.signal.sent

/-- A transceiver that just began to listen. -/
def start (fails : Signal → Bool) (chunk room : Option Nat) : Transceiver :=
  perform ⟨fails, chunk, room, #[]⟩ .receive

end Transceiver

end Multidrop
