import Multidrop.Layout
import Multidrop.Node.Session

/-!
What a node tells about itself, and how it answers when asked for one item of it.
-/

namespace Multidrop

/-- What a node tells about itself. -/
structure Identity where
  status : NodeStatus
  firmwareVersion : UInt32
  bootloaderVersion : UInt32
  name : List UInt8
  deriving DecidableEq

namespace Identity

/-- An identity whose name is cut to what is reported at most. -/
def named (status : NodeStatus) (firmwareVersion bootloaderVersion : UInt32) (name : List UInt8) :
    Identity :=
  ⟨status, firmwareVersion, bootloaderVersion, name.take Layout.nameMax⟩

/-- The answer to a query. A name is cut or padded with zeros to the length the packet declares; an
unknown item is answered with zeros alone. -/
def answer (identity : Identity) (session : Session) : Query → List Action
  | .status => [.send (toWire identity.status)]
  | .address => [.send (toWire session.address)]
  | .firmwareVersion => [.send (toWire identity.firmwareVersion)]
  | .bootloaderVersion => [.send (toWire identity.bootloaderVersion)]
  | .firmwareNameLength => [.send [UInt8.ofNat identity.name.length]]
  | .firmwareName => [.send (identity.name.take session.remaining), .fill 0]
  | .unknown => [.fill 0]

end Identity

end Multidrop
