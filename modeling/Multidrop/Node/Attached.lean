import Multidrop.Line.Recorder
import Multidrop.Line.Transceiver
import Multidrop.Network

/-!
A node with what attaches it to the line: somebody who listens, or a transceiver whose parts may
fail. What reaches the line is decided there, not by the node.
-/

namespace Multidrop

/-- What attaches a node to the line. -/
inductive Adapter where
  /-- Everything the node says reaches the line. -/
  | recorder (trace : Line.Trace)
  | transceiver (parts : Transceiver)

/-- A node and what attaches it to the line. -/
structure Attached (C : Type) where
  node : Node C
  adapter : Adapter
  timer : Bool
  /-- What reached the line and was not taken yet. -/
  sent : List UInt8

namespace Attached

variable {C : Type}

def start (node : Node C) (adapter : Adapter) : Attached C :=
  ⟨node, adapter, false, []⟩

/-- Lets the adapter carry out what the node asked of the line. -/
def settle (attached : Attached C) : Attached C :=
  match attached with
  | ⟨node, adapter, timer, sent⟩ =>
    match node.takeTrace with
    | (trace, node) =>
      match adapter with
      | .recorder before =>
        ⟨node, .recorder (before ++ trace), trace.timer timer, sent ++ trace.written⟩
      | .transceiver parts =>
        let seen := parts.journal.size
        let parts := trace.foldl Transceiver.perform parts
        let journal := parts.journal.extract seen parts.journal.size
        ⟨node, .transceiver parts, trace.timer timer, sent ++ Transceiver.sent journal⟩

def mapNode (attached : Attached C) (change : Node C → Node C) : Attached C :=
  match attached with
  | ⟨node, adapter, timer, sent⟩ => (⟨change node, adapter, timer, sent⟩ : Attached C).settle

/-- Changes the command set behind the back of the node. -/
def mapCommands (attached : Attached C) (change : C → C) : Attached C :=
  attached.mapNode (·.mapLink (Link.mapCommands change))

def commands (attached : Attached C) : C :=
  attached.node.link.value.commands

variable [CommandSet C]

def poll (attached : Attached C) : Option Command × Attached C :=
  match attached with
  | ⟨node, adapter, timer, sent⟩ =>
    match node.poll with
    | (command, node) => (command, (⟨node, adapter, timer, sent⟩ : Attached C).settle)

/-- An attached node is a station. What it sends is taken each time it is served. -/
instance : Station (Attached C) where
  hear attached byte := attached.mapNode (·.receive byte)
  silence attached := attached.mapNode Node.timeout
  serve attached :=
    match attached.poll with
    | (command, ⟨node, adapter, timer, sent⟩) => (command, sent, ⟨node, adapter, timer, []⟩)

end Attached

end Multidrop
