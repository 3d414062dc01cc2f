/-!
What a node asks of the line it is attached to. The line is half duplex: a transceiver either drives
it or listens to it. The calls of a node are kept as a trace, which says all that the line sees of
the node and nothing of what it does with it.
-/

namespace Multidrop.Line

/-- One call on the line. -/
inductive Call where
  /-- Take the line. The node stops listening until `receive`. -/
  | transmit
  | receive
  | write (bytes : List UInt8)
  /-- Wait until the last byte written is completely out. -/
  | flush
  | restartTimer
  | stopTimer
  deriving DecidableEq

/-- The calls made so far, oldest first. -/
abbrev Trace := Array Call

/-- The silence, in microseconds, after which a packet in progress is dropped. -/
def idleTimeout : Nat := 1000

/-- The bytes a call puts on the line. -/
def Call.written : Call → List UInt8
  | write bytes => bytes
  | _ => []

def Call.timer (running : Bool) : Call → Bool
  | restartTimer => true
  | stopTimer => false
  | _ => running

def Trace.written (trace : Trace) : List UInt8 :=
  trace.toList.flatMap Call.written

def Trace.timer (trace : Trace) (running : Bool) : Bool :=
  trace.foldl Call.timer running

end Multidrop.Line
