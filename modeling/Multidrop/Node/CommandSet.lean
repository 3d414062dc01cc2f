import Multidrop.Node.Collector
import Multidrop.Node.Session

/-!
The commands a node answers to. The node asks the set once the header of a packet addressed to it is
complete, and again, from its main loop, once the payload the set wanted is complete.
-/

namespace Multidrop

/-- What to do with a packet addressed to the node. -/
inductive Accept where
  /-- Drop the packet. Its bytes are still counted. -/
  | ignore
  | execute
  | collect (kind : PayloadKind)
  deriving DecidableEq

/-- A set of commands with its own state. -/
class CommandSet (C : Type) where
  accept : C → Header → Accept × C
  /-- Executes a request on the line as the session shows it. -/
  execute : C → Request → Session → List Action × C

end Multidrop
