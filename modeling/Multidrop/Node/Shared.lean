import Multidrop.Node.CommandSet
import Multidrop.Node.Identity
import Multidrop.Store

/-!
The commands that bootloaders and firmwares have in common: presence, identity, and the address kept
in the configuration store.
-/

namespace Multidrop.Shared

def accept (header : Header) : Accept :=
  match header.command with
  | .ping | .eraseConfig => .execute
  | .getData => .collect .query
  | .setAddress => .collect .address
  | _ => .ignore

/-- Stores a new address. The node takes it only if it could be stored, and answers with zero or
with the status of the error. -/
def setAddress (flash : Flash) (address : UInt8) : List Action × Flash :=
  match Store.standard.setWord flash Store.addressKind address.toUInt32 with
  | (.ok (), flash) => ([.setAddress address, .send [0]], flash)
  | (.error error, flash) => ([.send [error.status]], flash)

/-- Executes a shared command. Erasing the configuration is not answered, whether it works or not,
and the node keeps its address until it restarts. -/
def execute (request : Request) (session : Session) (identity : Identity) (flash : Flash) :
    List Action × Flash :=
  match request.header.command, request.payload with
  | .ping, _ => ([.send [1]], flash)
  | .getData, .query item => (identity.answer session item, flash)
  | .setAddress, .address address => setAddress flash address
  | .eraseConfig, _ => ([], (Store.standard.erase flash).2)
  | _, _ => ([], flash)

end Multidrop.Shared
