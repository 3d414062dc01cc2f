import Multidrop.Proofs.Strict.Bootloader
import Multidrop.Proofs.Strict.Framer

/-!
Nodes in strict operations. Whatever is received, however long the line is silent and whoever takes
the lock, and whatever is in flash and wrong with it, a node does what it does without a trap.
-/

namespace Multidrop

/-- A node whose framer works in strict operations. -/
structure StrictNode (C : Type) where
  framer : Lock (Framer C)
  ready : Bool
  expired : Bool

namespace StrictNode

variable {C : Type}

def start (commands : C) (address : UInt8) : StrictNode C :=
  ⟨.free (.idle commands address), false, false⟩

/-- Changes the framer, lock and flags aside. -/
def mapFramer (node : StrictNode C) (change : Framer C → Framer C) : StrictNode C :=
  { node with framer := { node.framer with value := change node.framer.value } }

def catchUp (node : StrictNode C) : StrictNode C :=
  if node.expired then { node.mapFramer Framer.timeout with expired := false } else node

def lock (node : StrictNode C) : StrictNode C :=
  if node.framer.held then node
  else { node.catchUp with framer := { node.catchUp.framer with held := true } }

def unlock (node : StrictNode C) : StrictNode C :=
  { node with framer := node.framer.unlock }

def timeout (node : StrictNode C) : StrictNode C :=
  if node.framer.held then { node with expired := true } else node.mapFramer Framer.timeout

variable [CommandSet C] [StrictCommandSet C]

def receive (node : StrictNode C) (byte : UInt8) : Strict (StrictNode C) := do
  if node.framer.held then return node
  else
    let node := node.catchUp
    let (became, framer) ← node.framer.value.receive byte
    return ⟨{ node.framer with value := framer }, node.ready || became, node.expired⟩

def poll (node : StrictNode C) : Strict (Option Command × StrictNode C) := do
  if node.framer.held then return (none, node)
  else
    let node := node.catchUp
    if node.ready then
      let (command, framer) ← node.framer.value.execute
      return (command, ⟨{ node.framer with value := framer }, false, node.expired⟩)
    else return (none, node)

def step (node : StrictNode C) : Node.Event → Strict (StrictNode C)
  | .byte byte => node.receive byte
  | .silence => return node.timeout
  | .poll => do return (← node.poll).2
  | .lock => return node.lock
  | .unlock => return node.unlock

/-- Several things happen to a node, in order. -/
def run (node : StrictNode C) (events : List Node.Event) : Strict (StrictNode C) :=
  events.foldlM step node

/-- The same node, of whose framer only the packet is kept. -/
def plain {C : Type} (node : StrictNode C) : Node C :=
  ⟨⟨node.framer.value.link, node.framer.held⟩, node.ready, node.expired⟩

/-- What is true of a node between events. -/
def Sound {C : Type} (node : StrictNode C) : Prop :=
  node.framer.value.Sound

section Steps

variable {C : Type} {node : StrictNode C}

theorem held_plain (node : StrictNode C) : node.plain.link.held = node.framer.held :=
  rfl

/-- The node catches up with a silence as the plain one does. -/
theorem catchUp_eq (sound : node.Sound) :
    node.catchUp.plain = node.plain.catchUp ∧ node.catchUp.Sound := by
  obtain ⟨hLink, hSound⟩ := Framer.timeout_eq sound
  obtain ⟨⟨framer, held⟩, ready, expired⟩ := node
  cases expired with
  | false => exact ⟨rfl, sound⟩
  | true =>
      refine ⟨?_, hSound⟩
      change (⟨⟨framer.timeout.link, held⟩, ready, false⟩ : Node C) =
        ⟨⟨framer.link.timeout, held⟩, ready, false⟩
      rw [hLink]

/-- A silence is the same for both. -/
theorem timeout_eq (sound : node.Sound) :
    node.timeout.plain = node.plain.timeout ∧ node.timeout.Sound := by
  obtain ⟨hLink, hSound⟩ := Framer.timeout_eq sound
  obtain ⟨⟨framer, held⟩, ready, expired⟩ := node
  cases held with
  | true => exact ⟨rfl, sound⟩
  | false =>
      refine ⟨?_, hSound⟩
      change (⟨⟨framer.timeout.link, false⟩, ready, expired⟩ : Node C) =
        ⟨⟨framer.link.timeout, false⟩, ready, expired⟩
      rw [hLink]

/-- To catch up is a matter of the framer and of the silence that was noted. -/
theorem catchUp_parts (node : StrictNode C) :
    node.catchUp = ⟨⟨node.catchUp.framer.value, node.framer.held⟩, node.ready, false⟩ := by
  obtain ⟨⟨framer, held⟩, ready, expired⟩ := node
  cases expired with
  | false => rfl
  | true => rfl

theorem link_catchUp (sound : node.Sound) :
    node.catchUp.framer.value.link = node.plain.catchUp.link.value :=
  congrArg (·.link.value) (catchUp_eq sound).1

/-- So is to take the lock. -/
theorem lock_eq (sound : node.Sound) : node.lock.plain = node.plain.lock ∧ node.lock.Sound := by
  obtain ⟨-, hSound⟩ := catchUp_eq sound
  have hPlain := held_plain node
  cases hHeld : node.framer.held with
  | true =>
      rw [lock, if_pos hHeld, Node.lock_of_held (hPlain.trans hHeld)]
      exact ⟨rfl, sound⟩
  | false =>
      refine ⟨?_, by rwa [lock, hHeld]⟩
      rw [lock, hHeld, if_neg Bool.false_ne_true, Node.lock_of_unlocked (hPlain.trans hHeld),
        ← link_catchUp sound, catchUp_parts node]
      rfl

variable [CommandSet C]

/-- A byte does not trap in a state that can be reached. -/
theorem receive_eq (sound : node.Sound) (reachable : node.plain.link.value.Reachable)
    (byte : UInt8) :
    ∃ after, node.receive byte = .ok after ∧ after.plain = node.plain.receive byte ∧
      after.Sound := by
  obtain ⟨-, hCaught⟩ := catchUp_eq sound
  have hPlain := held_plain node
  cases hHeld : node.framer.held with
  | true =>
      rw [receive, if_pos hHeld, Node.receive_of_held (hPlain.trans hHeld)]
      exact ⟨node, rfl, rfl, sound⟩
  | false =>
      have hReachable := Node.reachable_catchUp reachable
      rw [← link_catchUp sound] at hReachable
      obtain ⟨after, hReceive, hLink, hAfter⟩ := Framer.receive_eq hCaught hReachable.sound byte
      rw [receive, hHeld, if_neg Bool.false_ne_true, catchUp_parts node,
        Node.receive_of_unlocked (hPlain.trans hHeld), ← link_catchUp sound, hHeld]
      dsimp only
      rw [hReceive, Strict.ok_bind, ← hLink]
      exact ⟨_, rfl, rfl, hAfter⟩

variable [StrictCommandSet C]

/-- Nor does a poll. -/
theorem poll_eq (sound : node.Sound) :
    ∃ after, node.poll = .ok (node.plain.poll.1, after) ∧ after.plain = node.plain.poll.2 ∧
      after.Sound := by
  obtain ⟨-, hCaught⟩ := catchUp_eq sound
  have hPlain := held_plain node
  cases hHeld : node.framer.held with
  | true =>
      rw [poll, if_pos hHeld, Node.poll_of_held (hPlain.trans hHeld)]
      exact ⟨node, rfl, rfl, sound⟩
  | false =>
      have hReady : node.plain.ready = node.ready := rfl
      rw [poll, hHeld, if_neg Bool.false_ne_true, catchUp_parts node,
        Node.poll_of_unlocked (hPlain.trans hHeld), ← link_catchUp sound, hReady, hHeld]
      dsimp only
      cases node.ready with
      | false => exact ⟨_, rfl, rfl, hCaught⟩
      | true =>
          obtain ⟨after, hExecute, hLink, hAfter⟩ := Framer.execute_eq hCaught
          rw [if_pos rfl, if_pos rfl, hExecute, Strict.ok_bind, ← hLink]
          exact ⟨_, rfl, rfl, hAfter⟩

/-- No event traps, in a state that can be reached. -/
theorem step_eq (sound : node.Sound) (reachable : node.plain.link.value.Reachable)
    (event : Node.Event) :
    ∃ after, node.step event = .ok after ∧ after.plain = node.plain.step event ∧ after.Sound := by
  cases event with
  | byte byte => exact receive_eq sound reachable byte
  | silence => exact ⟨_, rfl, timeout_eq sound⟩
  | poll =>
      obtain ⟨after, hPoll, hAfter, hSound⟩ := poll_eq sound
      refine ⟨after, ?_, hAfter, hSound⟩
      rw [step, hPoll]
      rfl
  | lock => exact ⟨_, rfl, lock_eq sound⟩
  | unlock => exact ⟨_, rfl, rfl, sound⟩

/-- Whatever happens to a node, it comes to where the node without traps comes to. -/
theorem run_eq (sound : node.Sound) (reachable : node.plain.link.value.Reachable)
    (events : List Node.Event) :
    ∃ after, node.run events = .ok after ∧ after.plain = node.plain.run events := by
  induction events generalizing node with
  | nil => exact ⟨node, rfl, rfl⟩
  | cons event rest ih =>
      obtain ⟨next, hStep, hNext, hSound⟩ := step_eq sound reachable event
      have hReachable := Node.reachable_step reachable event
      obtain ⟨after, hRun, hAfter⟩ := ih hSound (hNext ▸ hReachable)
      refine ⟨after, ?_, ?_⟩
      · rw [run, List.foldlM_cons, hStep, Strict.ok_bind]
        exact hRun
      · rw [hAfter, hNext]
        rfl

/-- A node that just came up runs without a trap, whatever its commands are. -/
theorem run_start (commands : C) (address : UInt8) (events : List Node.Event) :
    ∃ after, (start commands address).run events = .ok after ∧
      after.plain = (Node.start commands address).run events := by
  have hSound : (start commands address).Sound := Framer.sound_idle commands address
  exact run_eq hSound (Node.reachable_start commands address) events

end Steps

end StrictNode

/-- Nothing that a node can be given makes it trap. Whatever its flash holds and whatever is wrong
with it, a bootloader and a firmware come up and look up their address; and from any state of either
and under any address, bytes, silences, polls and locks in any order lead without an overflow, a
division by zero, an index or a slice that reaches outside, a copy between parts that are not of one
length or a loop that does not end to the node that they lead to. -/
theorem never_traps (flash : Flash) (chip : Chip) (version : UInt32) (curves : List Curve)
    (name : List UInt8) (address : UInt8) (events : List Node.Event) :
    Bootloader.strictStart flash chip version = .ok (.start flash chip version) ∧
    Firmware.strictStart flash chip curves version name =
      .ok (.start flash chip curves version name) ∧
    Store.strictStoredAddress flash = .ok (Store.storedAddress flash) ∧
    (∀ bootloader : Bootloader, ∃ after,
      (StrictNode.start bootloader address).run events = .ok after ∧
        after.plain = (Node.start bootloader address).run events) ∧
    ∀ firmware : Firmware, ∃ after,
      (StrictNode.start firmware address).run events = .ok after ∧
        after.plain = (Node.start firmware address).run events := by
  refine ⟨Bootloader.strictStart_eq flash chip version,
    Firmware.strictStart_eq flash chip curves version name, Store.strictStoredAddress_eq flash,
    fun bootloader => ?_, fun firmware => ?_⟩
  · exact StrictNode.run_start bootloader address events
  · exact StrictNode.run_start firmware address events

end Multidrop
