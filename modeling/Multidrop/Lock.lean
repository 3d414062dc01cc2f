/-!
A value that one context at a time may use. Taking the lock never waits: an interrupt that finds it
taken gives up its work.
-/

namespace Multidrop

/-- A value and whether somebody holds it. -/
structure Lock (α : Type) where
  value : α
  held : Bool

namespace Lock

variable {α : Type}

def free (value : α) : Lock α :=
  ⟨value, false⟩

/-- Takes the lock and shows its value, or shows nothing if it is held. -/
@[inline]
def tryLock (lock : Lock α) : Option α × Lock α :=
  if lock.held then (none, lock) else (some lock.value, { lock with held := true })

@[inline]
def unlock (lock : Lock α) : Lock α :=
  { lock with held := false }

/-- Changes the value, which only the holder may do. -/
@[inline]
def set? (lock : Lock α) (value : α) : Option (Lock α) :=
  if lock.held then some { lock with value } else none

end Lock

end Multidrop
