import Multidrop.Lock
import Multidrop.Node.Link

/-!
A node of the bus. Three contexts share it: the receive interrupt feeds it bytes, the timer
interrupt tells it of silence, and the main loop executes the requests that are ready. Its framer is
under a lock that interrupts never wait for. A byte that comes while the lock is held is lost; a
silence that comes meanwhile is remembered and applied by whoever takes the lock next.
-/

namespace Multidrop

/-- A node with its command set. -/
structure Node (C : Type) where
  link : Lock (Link C)
  /-- A request became ready and was not polled for since. -/
  ready : Bool
  /-- The line fell silent while the lock was held. -/
  expired : Bool

namespace Node

variable {C : Type}

/-- A node between packets. -/
def start (commands : C) (address : UInt8) : Node C :=
  ⟨.free (.idle commands address), false, false⟩

/-- Changes the framer, lock and flags aside. -/
def mapLink {D : Type} (node : Node C) (change : Link C → Link D) : Node D :=
  match node with
  | ⟨⟨link, held⟩, ready, expired⟩ => ⟨⟨change link, held⟩, ready, expired⟩

/-- Applies a silence that was missed while the lock was held. -/
def catchUp (node : Node C) : Node C :=
  if node.expired then { node.mapLink Link.timeout with expired := false } else node

/-- Takes the lock if it is free, and applies a silence that was missed. -/
def take? (node : Node C) : Option (Node C) :=
  match node.link.tryLock with
  | (some _, link) => some { node with link }.catchUp
  | (none, _) => none

/-- Takes the lock, which is only possible while it is free. -/
def lock (node : Node C) : Node C :=
  node.take?.getD node

def unlock (node : Node C) : Node C :=
  { node with link := node.link.unlock }

/-- Whoever has the lock puts a framer in. -/
def put (node : Node C) (link : Link C) : Node C :=
  { node with link := (node.link.set? link).getD node.link }

/-- Whoever has the lock puts a framer in and gives the lock back. -/
def leave (node : Node C) (link : Link C) : Node C :=
  (node.put link).unlock

/-- The framer as whoever takes the lock sees it. -/
def look (node : Node C) : Node C :=
  node.lock.unlock

/-- The line stayed silent for too long. -/
def timeout (node : Node C) : Node C :=
  match node.link.tryLock with
  | (some value, link) => { node with link }.leave value.timeout
  | (none, _) => { node with expired := true }

/-- How many bytes of the packet in progress went by, once a missed silence is applied. -/
def position (node : Node C) : Nat :=
  node.look.link.value.position

def address (node : Node C) : UInt8 :=
  node.link.value.address

/-- Gives the line back for good. -/
def release (node : Node C) : Node C :=
  node.lock.leave node.lock.link.value.release

/-- The calls made on the line so far, and the node without them. -/
def takeTrace (node : Node C) : Line.Trace × Node C :=
  match node with
  | ⟨⟨link, held⟩, ready, expired⟩ =>
    match link.takeTrace with
    | (trace, link) => (trace, ⟨⟨link, held⟩, ready, expired⟩)

variable [CommandSet C]

def receive (node : Node C) (byte : UInt8) : Node C :=
  match node.take? with
  | none => node
  | some node =>
    let waited := node.link.value.packet.isReady
    let link := node.link.value.receive byte
    { node.leave link with ready := node.ready || (!waited && link.packet.isReady) }

/-- Executes the request that is ready, if there is one, and says which command it was. The main
loop does not poll while it holds the lock itself. -/
def poll (node : Node C) : Option Command × Node C :=
  match node.take? with
  | none => (none, node)
  | some node =>
    if node.ready then
      match node.link.value.execute with
      | (command, link) => (command, { node.leave link with ready := false })
    else (none, node.unlock)

/-! ## By the lock

What each call comes to while somebody else holds the lock, and what while nobody does. -/

section Locking

variable {C : Type} {node : Node C}

theorem link_catchUp (node : Node C) :
    node.catchUp.link.value = if node.expired then node.link.value.timeout else node.link.value := by
  unfold catchUp
  split
  · rfl
  · rfl

/-- To catch up is a matter of the framer and of the silence that was noted. -/
theorem catchUp_eq (node : Node C) :
    node.catchUp = ⟨⟨node.catchUp.link.value, node.link.held⟩, node.ready, false⟩ := by
  obtain ⟨⟨link, held⟩, ready, expired⟩ := node
  cases expired with
  | false => rfl
  | true => rfl

theorem catchUp_of_not_expired (h : node.expired = false) : node.catchUp = node := by
  rw [catchUp, h, if_neg Bool.false_ne_true]

theorem held_catchUp (node : Node C) : node.catchUp.link.held = node.link.held := by
  rw [catchUp_eq]

theorem ready_catchUp (node : Node C) : node.catchUp.ready = node.ready := by
  rw [catchUp_eq]

theorem expired_catchUp (node : Node C) : node.catchUp.expired = false := by
  rw [catchUp_eq]

/-- Whoever takes a free lock has the node caught up, and is the one who holds it. -/
theorem take?_of_unlocked (h : node.link.held = false) :
    node.take? = some ⟨⟨node.catchUp.link.value, true⟩, node.ready, false⟩ := by
  rw [take?, Lock.tryLock, h, if_neg Bool.false_ne_true]
  obtain ⟨⟨link, held⟩, ready, expired⟩ := node
  cases expired with
  | false => rfl
  | true => rfl

theorem take?_of_held (h : node.link.held = true) : node.take? = none := by
  rw [take?, Lock.tryLock, if_pos h]

theorem lock_of_unlocked (h : node.link.held = false) :
    node.lock = ⟨⟨node.catchUp.link.value, true⟩, node.ready, false⟩ := by
  rw [lock, take?_of_unlocked h, Option.getD_some]

theorem lock_of_held (h : node.link.held = true) : node.lock = node := by
  rw [lock, take?_of_held h, Option.getD_none]

theorem timeout_of_unlocked (h : node.link.held = false) :
    node.timeout = ⟨⟨node.link.value.timeout, false⟩, node.ready, node.expired⟩ := by
  rw [timeout, Lock.tryLock, h, if_neg Bool.false_ne_true]
  rfl

theorem held_lock (node : Node C) : node.lock.link.held = true := by
  cases hHeld : node.link.held with
  | true => rw [lock_of_held hHeld, hHeld]
  | false => rw [lock_of_unlocked hHeld]

/-- A silence that comes while the lock is held is noted. -/
theorem timeout_of_held (h : node.link.held = true) : node.timeout = { node with expired := true } := by
  rw [timeout, Lock.tryLock, if_pos h]

variable [CommandSet C]

theorem receive_of_unlocked (h : node.link.held = false) (byte : UInt8) :
    node.receive byte = ⟨⟨node.catchUp.link.value.receive byte, false⟩,
      node.ready || (!node.catchUp.link.value.packet.isReady &&
        (node.catchUp.link.value.receive byte).packet.isReady), false⟩ := by
  rw [receive, take?_of_unlocked h]
  rfl

/-- A byte that comes while the lock is held is lost. -/
theorem receive_of_held (h : node.link.held = true) (byte : UInt8) : node.receive byte = node := by
  rw [receive, take?_of_held h]

theorem poll_of_unlocked (h : node.link.held = false) :
    node.poll = if node.ready then
        (node.catchUp.link.value.execute.1, ⟨⟨node.catchUp.link.value.execute.2, false⟩, false, false⟩)
      else (none, ⟨⟨node.catchUp.link.value, false⟩, node.ready, false⟩) := by
  rw [poll, take?_of_unlocked h]
  rfl

theorem poll_of_held (h : node.link.held = true) : node.poll = (none, node) := by
  rw [poll, take?_of_held h]

end Locking

end Node

end Multidrop
