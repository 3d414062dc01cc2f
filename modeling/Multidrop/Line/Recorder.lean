import Multidrop.Line

/-!
What somebody who listens to a node notices of its calls on the line: when it takes the line and
gives it back, and how much it says in between.
-/

namespace Multidrop.Line

inductive Event where
  | transmit
  | receive
  | flush
  | write (count : Nat)
  deriving DecidableEq

def Event.text : Event → String
  | transmit => "transmit"
  | receive => "receive"
  | flush => "flush"
  | write count => s!"write {count}"

/-- The event of bytes in a row, if there are any. -/
def Event.ofCount (count : Nat) : List Event :=
  if count = 0 then [] else [write count]

/-- What is noticed of calls, after `count` bytes that were not told of yet. Timers go unnoticed. -/
def eventsFrom (count : Nat) : List Call → List Event
  | [] => Event.ofCount count
  | .write bytes :: rest => eventsFrom (count + bytes.length) rest
  | .transmit :: rest => Event.ofCount count ++ .transmit :: eventsFrom 0 rest
  | .receive :: rest => Event.ofCount count ++ .receive :: eventsFrom 0 rest
  | .flush :: rest => Event.ofCount count ++ .flush :: eventsFrom 0 rest
  | .restartTimer :: rest | .stopTimer :: rest => eventsFrom count rest

def Trace.events (trace : Trace) : List Event :=
  eventsFrom 0 trace.toList

end Multidrop.Line
