import Multidrop.Node.Chip
import Multidrop.Node.CommandSet
import Multidrop.Store

/-!
A command set given by tables: what to do with each command when it is offered and when it is
executed. It keeps a log of what it was asked and of what it saw of the line.
-/

namespace Multidrop

/-- What a scripted command set saw. -/
inductive Scripted.Entry where
  | accept (header : Header)
  | execute (request : Request) (remaining : Nat)
  /-- The line after an action. -/
  | after (remaining : Nat) (address : UInt8)
  deriving DecidableEq

/-- A command set given by tables. -/
structure Scripted where
  flash : Flash
  chip : Chip
  /-- What to do with the packets of a command. The others are ignored. -/
  accepts : List (Command × Accept)
  /-- What to do when a command executes. -/
  actions : List (Command × List Action)
  log : Array Scripted.Entry

namespace Scripted

def accept (scripted : Scripted) (header : Header) : Accept × Scripted :=
  ((scripted.accepts.lookup header.command).getD .ignore,
    { scripted with log := scripted.log.push (.accept header) })

/-- What is seen of the line after each action. -/
def watch (session : Session) : List Action → List Entry
  | [] => []
  | action :: rest =>
    let session := session.perform action
    .after session.remaining session.address :: watch session rest

def execute (scripted : Scripted) (request : Request) (session : Session) :
    List Action × Scripted :=
  let actions := (scripted.actions.lookup request.header.command).getD []
  let entries := .execute request session.remaining :: watch session actions
  (actions, { scripted with log := scripted.log ++ entries })

instance : CommandSet Scripted where
  accept := accept
  execute := execute

end Scripted

end Multidrop
