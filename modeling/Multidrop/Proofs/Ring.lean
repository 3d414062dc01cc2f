import Mathlib.Algebra.Group.Nat.Defs
import Mathlib.Data.List.Infix
import Multidrop.Ring

/-!
A ring is a queue that drops its oldest bytes. Its counters wrap, and a reader that was overrun only
finds out when it takes the next byte, so what a ring holds is told from how many bytes came and how
many are gone: these grow forever, and the counters show them up to a multiple of their range.
-/

namespace Multidrop

namespace Ring

/-- How many bytes were pushed and are not gone, overwritten ones included. -/
def unread (ring : Ring) : Nat :=
  (ring.head - ring.tail).toNat

/-- The unread bytes that were not overwritten, the oldest of them in front. -/
def held (ring : Ring) : List UInt8 :=
  (List.range ring.length).map fun i =>
    ring.slots.getD (ring.slot (ring.oldest + UInt64.ofNat i)) 0

/-- The oldest byte lies as far behind the head as there are bytes. -/
theorem head_sub_oldest (ring : Ring) : (ring.head - ring.oldest).toNat = ring.length := by
  rw [oldest, length]
  split
  case isTrue hOverrun =>
      have hRange := (ring.head - ring.tail).toNat_lt
      have hBack : ring.head - (ring.head - UInt64.ofNat ring.capacity) =
          UInt64.ofNat ring.capacity := by grind
      rw [hBack, UInt64.toNat_ofNat', Nat.mod_eq_of_lt (by omega)]
      omega
  case isFalse hNot => omega

/-- The bytes that are held start with the oldest. -/
theorem held_of_length {ring : Ring} {rest : Nat} (h : ring.length = rest + 1) :
    ring.held = ring.slots.getD (ring.slot ring.oldest) 0 ::
      (List.range rest).map fun i =>
        ring.slots.getD (ring.slot (ring.oldest + 1 + UInt64.ofNat i)) 0 := by
  have hNext (i : Nat) : ring.oldest + UInt64.ofNat (i + 1) = ring.oldest + 1 + UInt64.ofNat i := by
    rw [UInt64.ofNat_add, UInt64.add_assoc, UInt64.add_comm 1]
    rfl
  have hFirst : ring.oldest + UInt64.ofNat 0 = ring.oldest := UInt64.add_zero _
  rw [held, h, List.range_succ_eq_map, List.map_cons, List.map_map, hFirst]
  exact congrArg _ (List.map_congr_left fun i _ =>
    congrArg (fun counter => ring.slots.getD (ring.slot counter) 0) (hNext i))

/-- Whatever the counters and the slots are, it is the oldest byte that is taken. -/
theorem pop_held (ring : Ring) (hCapacity : 0 < ring.capacity) :
    ring.pop.1 = ring.held.head? ∧ ring.pop.2.held = ring.held.tail := by
  have hOldest := ring.head_sub_oldest
  rw [pop]
  by_cases hNone : ring.head = ring.tail
  · have hLength : ring.length = 0 := by simp [length, hNone]
    have hHeld : ring.held = [] := by rw [held, hLength]; rfl
    rw [if_pos hNone, hHeld]
    exact ⟨rfl, rfl⟩
  · have hUnread : (ring.head - ring.tail).toNat ≠ 0 := by
      intro hZero
      have hDiff : ring.head - ring.tail = 0 := UInt64.toNat_inj.mp hZero
      grind
    obtain ⟨rest, hLength⟩ : ∃ rest, ring.length = rest + 1 :=
      Nat.exists_eq_add_one_of_ne_zero (by rw [length]; omega)
    have hRest : rest ≤ ring.capacity := by
      rw [length] at hLength
      omega
    rw [hLength] at hOldest
    have hLeft : (ring.head - (ring.oldest + 1)).toNat = rest := by
      have hSome : (1 : UInt64) ≤ ring.head - ring.oldest := by
        rw [UInt64.le_iff_toNat_le, hOldest]
        simp
      have hLess : ring.head - (ring.oldest + 1) = ring.head - ring.oldest - 1 := by grind
      rw [hLess, UInt64.toNat_sub_of_le _ _ hSome, hOldest]
      rfl
    have hAfterOldest : ({ ring with tail := ring.oldest + 1 } : Ring).oldest = ring.oldest + 1 :=
      if_neg (by rw [hLeft]; exact Nat.not_lt.mpr hRest)
    have hAfterLength : ({ ring with tail := ring.oldest + 1 } : Ring).length = rest :=
      (congrArg (min · ring.capacity) hLeft).trans (Nat.min_eq_left hRest)
    rw [if_neg hNone, held_of_length hLength]
    refine ⟨rfl, ?_⟩
    rw [held, hAfterLength, hAfterOldest]
    rfl

/-- The bytes `came` were pushed one after the other, and the first `gone` of them are taken,
skipped or dropped. -/
structure Tracks (ring : Ring) (came : List UInt8) (gone : Nat) : Prop where
  divides : ring.capacity ∣ 2 ^ 64
  head : ring.head = UInt64.ofNat came.length
  tail : ring.tail = UInt64.ofNat gone
  gone_le : gone ≤ came.length
  /-- The counters tell a ring that was overrun from one that was not. -/
  apart : came.length - gone < 2 ^ 64
  newest : ∀ i, i < came.length → came.length ≤ i + ring.capacity →
    ring.slots[i % ring.capacity]? = came[i]?

/-- Nothing came to an empty ring. -/
theorem tracks_empty {capacity : Nat} (divides : capacity ∣ 2 ^ 64) :
    (empty capacity).Tracks [] 0 where
  divides := by simpa only [empty, Ring.capacity, Array.size_replicate] using divides
  head := rfl
  tail := rfl
  gone_le := Nat.le_refl _
  apart := by decide
  newest := nofun

theorem capacity_push (ring : Ring) (byte : UInt8) : (ring.push byte).capacity = ring.capacity :=
  Array.size_setIfInBounds

theorem capacity_pop (ring : Ring) : ring.pop.2.capacity = ring.capacity := by
  rw [pop]
  split <;> rfl

/-- Numbers closer than a ring is long have slots of their own. -/
theorem mod_ne_of_close {i j capacity : Nat} (h : i < j) (close : j < i + capacity) :
    i % capacity ≠ j % capacity := by
  intro hSame
  have hZero := Nat.sub_mod_eq_zero_of_mod_eq hSame.symm
  rw [Nat.mod_eq_of_lt (by omega)] at hZero
  omega

namespace Tracks

variable {ring : Ring} {came : List UInt8} {gone : Nat}

theorem capacity_pos (tracks : ring.Tracks came gone) : 0 < ring.capacity :=
  Nat.pos_of_dvd_of_pos tracks.divides (by decide)

/-- Wrapping a counter does not change its slot. -/
theorem slot (tracks : ring.Tracks came gone) (n : Nat) :
    ring.slot (UInt64.ofNat n) = n % ring.capacity := by
  rw [Ring.slot, UInt64.toNat_ofNat', Nat.mod_mod_of_dvd _ tracks.divides]

/-- What came and is not gone is unread. -/
theorem unread (tracks : ring.Tracks came gone) : ring.unread = came.length - gone := by
  rw [Ring.unread, tracks.head, tracks.tail, ← UInt64.ofNat_sub tracks.gone_le,
    UInt64.toNat_ofNat', Nat.mod_eq_of_lt tracks.apart]

/-- Of what is unread at most the capacity is held. -/
theorem length (tracks : ring.Tracks came gone) :
    ring.length = min (came.length - gone) ring.capacity := by
  rw [Ring.length, ← tracks.unread, Ring.unread]

/-- The counters meet when all that came is gone. -/
theorem head_eq_tail_iff (tracks : ring.Tracks came gone) :
    ring.head = ring.tail ↔ came.length = gone := by
  constructor
  · intro h
    have hNone : ring.unread = 0 := by rw [Ring.unread, h, UInt64.sub_self, UInt64.toNat_zero]
    have hGone := tracks.gone_le
    rw [tracks.unread] at hNone
    omega
  · intro h
    rw [tracks.head, tracks.tail, h]

/-- The oldest byte that is held is the first unread one, or the first that was not overwritten. -/
theorem oldest (tracks : ring.Tracks came gone) :
    ring.oldest = UInt64.ofNat (max gone (came.length - ring.capacity)) := by
  have hUnread : (ring.head - ring.tail).toNat = came.length - gone := tracks.unread
  rw [Ring.oldest, hUnread]
  by_cases hOverrun : ring.capacity < came.length - gone
  · rw [if_pos hOverrun, tracks.head, ← UInt64.ofNat_sub (by omega), Nat.max_eq_right (by omega)]
  · rw [if_neg hOverrun, tracks.tail, Nat.max_eq_left (by omega)]

/-- One more byte came. -/
theorem push (tracks : ring.Tracks came gone) (room : came.length - gone + 1 < 2 ^ 64)
    (byte : UInt8) : (ring.push byte).Tracks (came ++ [byte]) gone := by
  have hSlot : ring.slot ring.head = came.length % ring.capacity := by
    rw [tracks.head, tracks.slot]
  have hCapacity := ring.capacity_push byte
  have hGone := tracks.gone_le
  have hLength : (came ++ [byte]).length = came.length + 1 := List.length_append
  refine ⟨hCapacity ▸ tracks.divides, ?_, tracks.tail, by omega, by omega, ?_⟩
  · rw [hLength, UInt64.ofNat_add, ← tracks.head]
    rfl
  · intro i hIn hNew
    rw [hLength] at hIn hNew
    rw [hCapacity] at hNew ⊢
    have hSlots : (ring.push byte).slots = ring.slots.setIfInBounds (came.length % ring.capacity)
        byte := by
      rw [← hSlot]
      rfl
    rw [hSlots, Array.getElem?_setIfInBounds]
    -- The new byte takes the slot of one that no longer counts among the newest.
    by_cases hLast : i = came.length
    · have hInside : came.length % ring.capacity < ring.slots.size :=
        Nat.mod_lt _ tracks.capacity_pos
      rw [hLast, if_pos rfl, if_pos hInside, List.getElem?_concat_length]
    · have hOther : came.length % ring.capacity ≠ i % ring.capacity :=
        (mod_ne_of_close (by omega) (by omega)).symm
      rw [if_neg hOther, tracks.newest i (by omega) (by omega),
        List.getElem?_append_left (by omega)]

/-- When all that came is gone, nothing is taken out. -/
theorem pop_none (tracks : ring.Tracks came gone) (h : came.length = gone) :
    ring.pop = (none, ring) := by
  rw [Ring.pop, if_pos (tracks.head_eq_tail_iff.mpr h)]

/-- A reader that was overrun goes on with the oldest byte there is. -/
theorem pop_some (tracks : ring.Tracks came gone) (h : gone < came.length) :
    ring.pop.1 = came[max gone (came.length - ring.capacity)]? ∧
      ring.pop.2.Tracks came (max gone (came.length - ring.capacity) + 1) := by
  have hCapacity := tracks.capacity_pos
  have hSome : ¬ring.head = ring.tail := by
    rw [tracks.head_eq_tail_iff]
    omega
  have hPop : ring.pop = (some (ring.slots.getD (ring.slot ring.oldest) 0),
      { ring with tail := ring.oldest + 1 }) := by
    rw [Ring.pop, if_neg hSome]
  have hByte := tracks.newest (max gone (came.length - ring.capacity)) (by omega) (by omega)
  rw [hPop, tracks.oldest]
  refine ⟨?_, tracks.divides, tracks.head, ?_, by omega, ?_, tracks.newest⟩
  · rw [List.getElem?_eq_getElem (by omega)] at hByte ⊢
    rw [tracks.slot, Array.getD_eq_getD_getElem?, hByte, Option.getD_some]
  · rw [UInt64.ofNat_add]
    rfl
  · have hApart := tracks.apart
    omega

/-- A ring that was not overrun gives the bytes in their order. -/
theorem pop_next (tracks : ring.Tracks came gone) (fits : came.length - gone ≤ ring.capacity)
    (h : gone < came.length) : ring.pop.1 = came[gone]? ∧ ring.pop.2.Tracks came (gone + 1) := by
  have hOldest : max gone (came.length - ring.capacity) = gone := Nat.max_eq_left (by omega)
  have hPop := tracks.pop_some h
  rwa [hOldest] at hPop

/-- As long as nothing is overwritten, the unread bytes are taken out in order. -/
theorem popMany (tracks : ring.Tracks came gone) (fits : came.length - gone ≤ ring.capacity)
    (count : Nat) : (ring.popMany count).1 = (came.drop gone).take count := by
  induction count generalizing ring gone with
  | zero => rfl
  | succ count ih =>
      rcases Nat.lt_or_ge gone came.length with hSome | hNone
      · obtain ⟨hByte, hRest⟩ := tracks.pop_next fits hSome
        have hCapacity : ring.pop.2.capacity = ring.capacity := ring.capacity_pop
        rw [List.getElem?_eq_getElem hSome] at hByte
        rcases hPop : ring.pop with ⟨found, rest⟩
        rw [hPop] at hByte hRest hCapacity
        dsimp only at hByte hRest hCapacity
        subst hByte
        rw [Ring.popMany, hPop, List.drop_eq_getElem_cons hSome, List.take_succ_cons,
          ← ih hRest (by omega)]
      · have hGone := tracks.gone_le
        rw [Ring.popMany, tracks.pop_none (by omega), List.drop_eq_nil_of_le hNone, List.take_nil]

/-- After clearing, all that came is gone. -/
theorem clear (tracks : ring.Tracks came gone) : ring.clear.Tracks came came.length where
  divides := tracks.divides
  head := tracks.head
  tail := tracks.head
  gone_le := Nat.le_refl _
  apart := by rw [Nat.sub_self]; decide
  newest := tracks.newest

end Tracks

/-- What can be asked of a ring. -/
inductive Call where
  | push (byte : UInt8)
  | pop
  | clear
  deriving DecidableEq

/-- The ring after a call, whatever the call answered. -/
def step (ring : Ring) : Call → Ring
  | .push byte => ring.push byte
  | .pop => ring.pop.2
  | .clear => ring.clear

def after (ring : Ring) (calls : List Call) : Ring :=
  calls.foldl step ring

theorem capacity_after (ring : Ring) (calls : List Call) :
    (ring.after calls).capacity = ring.capacity := by
  induction calls generalizing ring with
  | nil => rfl
  | cons call calls ih =>
      refine (ih (ring.step call)).trans ?_
      cases call with
      | push byte => exact ring.capacity_push byte
      | pop => exact ring.capacity_pop
      | clear => rfl

/-- The bytes pushed since the last call that was no push. -/
def burst (calls : List Call) : List UInt8 :=
  calls.foldl (fun bytes call => match call with
    | .push byte => bytes ++ [byte]
    | .pop | .clear => []) []

/-- A push makes the burst longer, and every other call ends it. -/
theorem burst_concat (calls : List Call) (call : Call) :
    burst (calls ++ [call]) = match call with
      | .push byte => burst calls ++ [byte]
      | .pop | .clear => [] := by
  rw [burst, List.foldl_concat]
  rfl

/-- The last pushes are the end of all calls. -/
theorem burst_suffix (calls : List Call) : (burst calls).map .push <:+ calls := by
  induction calls using List.reverseRecOn with
  | nil => exact List.suffix_rfl
  | append_singleton calls call ih =>
      rw [burst_concat]
      cases call with
      | push byte =>
          obtain ⟨before, hBefore⟩ := ih
          refine ⟨before, ?_⟩
          rw [List.map_append, ← List.append_assoc, hBefore]
          rfl
      | pop => exact List.nil_suffix
      | clear => exact List.nil_suffix

/-- So few bytes are pushed in a row, between two calls that are no pushes, before the first of them
and after the last, that the counters tell how many bytes are unread. -/
def Spaced (capacity : Nat) (calls : List Call) : Prop :=
  ∀ bytes : List UInt8, bytes.map .push <:+: calls → bytes.length ≤ 2 ^ 64 - capacity

/-- What is spaced was spaced before. -/
theorem Spaced.of_prefix {capacity : Nat} {past calls : List Call} (spaced : Spaced capacity calls)
    (h : past <+: calls) : Spaced capacity past :=
  fun bytes hBytes => spaced bytes (hBytes.trans h.isInfix)

/-- Calls that are spaced end with a burst that is within the bound. -/
theorem Spaced.burst {capacity : Nat} {calls : List Call} (spaced : Spaced capacity calls) :
    (burst calls).length ≤ 2 ^ 64 - capacity :=
  spaced _ (burst_suffix calls).isInfix

end Ring

/-- A queue that keeps its newest bytes, as many as it has room for, the oldest of them in front. -/
def Queue.step (capacity : Nat) (queue : List UInt8) : Ring.Call → List UInt8
  | .push byte => (queue ++ [byte]).drop (queue.length + 1 - capacity)
  | .pop => queue.tail
  | .clear => []

def Queue.after (capacity : Nat) (calls : List Ring.Call) : List UInt8 :=
  calls.foldl (step capacity) []

/-- While there is room nothing is dropped. -/
theorem Queue.step_push_of_room {capacity : Nat} {queue : List UInt8}
    (room : queue.length < capacity) (byte : UInt8) :
    step capacity queue (.push byte) = queue ++ [byte] := by
  rw [step, Nat.sub_eq_zero_of_le room, List.drop_zero]

/-- One more call is one more step. -/
theorem Queue.after_concat (capacity : Nat) (calls : List Ring.Call) (call : Ring.Call) :
    after capacity (calls ++ [call]) = step capacity (after capacity calls) call :=
  List.foldl_concat ..

namespace Ring

/-- A ring that holds the bytes of a queue, with `recent` pushes since a byte was last taken or all
were dropped. Before these pushes there was room for one more byte. -/
structure Mirrors (ring : Ring) (capacity : Nat) (queue : List UInt8) (recent : Nat) : Prop where
  capacity_eq : ring.capacity = capacity
  held : ∃ came gone, ring.Tracks came gone ∧
    queue = came.drop (max gone (came.length - capacity)) ∧
    came.length - gone < capacity + recent

namespace Mirrors

variable {ring : Ring} {capacity recent : Nat} {queue : List UInt8}

/-- An empty ring is an empty queue. -/
theorem empty (divides : capacity ∣ 2 ^ 64) : (Ring.empty capacity).Mirrors capacity [] 0 := by
  have hCapacity : (Ring.empty capacity).capacity = capacity := Array.size_replicate
  have tracks := tracks_empty divides
  refine ⟨hCapacity, [], 0, tracks, List.drop_nil.symm, ?_⟩
  have hPos := tracks.capacity_pos
  rw [hCapacity] at hPos
  exact hPos

theorem push (mirrors : ring.Mirrors capacity queue recent)
    (room : recent + 1 ≤ 2 ^ 64 - capacity) (byte : UInt8) :
    (ring.push byte).Mirrors capacity (Queue.step capacity queue (.push byte)) (recent + 1) := by
  obtain ⟨hCapacity, came, gone, tracks, hQueue, hRecent⟩ := mirrors
  have hPushed := (ring.capacity_push byte).trans hCapacity
  have hGone := tracks.gone_le
  have hPos := tracks.capacity_pos
  have hLength : (came ++ [byte]).length = came.length + 1 := List.length_append
  refine ⟨hPushed, came ++ [byte], gone, tracks.push (by omega) byte, ?_, by omega⟩
  have hHeld : queue ++ [byte] =
      (came ++ [byte]).drop (max gone (came.length - capacity)) := by
    rw [hQueue, List.drop_append_of_le_length (by omega)]
  have hSize : queue.length = came.length - max gone (came.length - capacity) := by
    rw [hQueue, List.length_drop]
  rw [Queue.step, hHeld, List.drop_drop, hSize, hLength]
  congr 1
  omega

/-- A ring and its queue give out the same byte. -/
theorem pop (mirrors : ring.Mirrors capacity queue recent) :
    ring.pop.1 = queue.head? ∧
      ring.pop.2.Mirrors capacity (Queue.step capacity queue .pop) 0 := by
  obtain ⟨hCapacity, came, gone, tracks, hQueue, hRecent⟩ := mirrors
  have hGone := tracks.gone_le
  have hPos := tracks.capacity_pos
  rcases Nat.lt_or_ge gone came.length with hSome | hNone
  · obtain ⟨hByte, hRest⟩ := tracks.pop_some hSome
    rw [hCapacity] at hByte hRest
    refine ⟨?_, ring.capacity_pop.trans hCapacity, came, _, hRest, ?_, by omega⟩
    · rw [hByte, hQueue, List.head?_drop]
    · rw [Queue.step, hQueue, List.tail_drop]
      congr 1
      omega
  · have hAll : came.length = gone := by omega
    have hQueueNil : queue = [] := by
      rw [hQueue]
      exact List.drop_eq_nil_of_le (by omega)
    rw [tracks.pop_none hAll, hQueueNil]
    refine ⟨rfl, hCapacity, came, gone, tracks, ?_, by omega⟩
    exact (List.drop_eq_nil_of_le (by omega)).symm

theorem clear (mirrors : ring.Mirrors capacity queue recent) :
    ring.clear.Mirrors capacity (Queue.step capacity queue .clear) 0 := by
  obtain ⟨hCapacity, came, gone, tracks, hQueue, hRecent⟩ := mirrors
  have hPos := tracks.capacity_pos
  refine ⟨hCapacity, came, came.length, tracks.clear, ?_, by omega⟩
  exact (List.drop_eq_nil_of_le (by omega)).symm

theorem length (mirrors : ring.Mirrors capacity queue recent) : ring.length = queue.length := by
  obtain ⟨hCapacity, came, gone, tracks, hQueue, hRecent⟩ := mirrors
  rw [tracks.length, hQueue, List.length_drop, hCapacity]
  omega

/-- They are empty at the same time. -/
theorem isEmpty (mirrors : ring.Mirrors capacity queue recent) :
    ring.isEmpty = queue.isEmpty := by
  rw [Ring.isEmpty, mirrors.length]
  cases queue <;> rfl

/-- After all calls that are spaced the ring is the queue. -/
theorem after (divides : capacity ∣ 2 ^ 64) {calls : List Call} (spaced : Spaced capacity calls) :
    ((Ring.empty capacity).after calls).Mirrors capacity (Queue.after capacity calls)
      (burst calls).length := by
  induction calls using List.reverseRecOn with
  | nil => exact empty divides
  | append_singleton calls call ih =>
      have mirrors := ih (spaced.of_prefix (List.prefix_append ..))
      have hBurst := spaced.burst
      rw [burst_concat] at hBurst ⊢
      rw [Ring.after, Queue.after, List.foldl_concat, List.foldl_concat]
      cases call with
      | push byte =>
          rw [List.length_append] at hBurst ⊢
          exact mirrors.push hBurst byte
      | pop => exact mirrors.pop.2
      | clear => exact mirrors.clear

end Mirrors

/-- However often its counters wrap, a ring answers at every point of a run as the queue of its
newest bytes does. -/
theorem queue_refined {capacity : Nat} (divides : capacity ∣ 2 ^ 64) {calls : List Call}
    (spaced : Spaced capacity calls) {past : List Call} (before : past <+: calls) :
    let ring := (empty capacity).after past
    let queue := Queue.after capacity past
    ring.pop.1 = queue.head? ∧ ring.length = queue.length ∧ ring.isEmpty = queue.isEmpty := by
  have mirrors := Mirrors.after divides (spaced.of_prefix before)
  exact ⟨mirrors.pop.1, mirrors.length, mirrors.isEmpty⟩

/-- A ring of two slots that was overrun, read once and overrun again. -/
theorem queue_refined_overrun :
    let calls : List Call := [.push 1, .push 2, .push 3, .pop, .push 4, .push 5, .pop, .clear]
    let past := calls.take 6
    2 ∣ 2 ^ 64 ∧ Spaced 2 calls ∧ past <+: calls ∧
      ((empty 2).after past).pop.1 = (Queue.after 2 past).head? ∧
      ((empty 2).after past).length = (Queue.after 2 past).length ∧
      ((empty 2).after past).isEmpty = (Queue.after 2 past).isEmpty ∧
      Queue.after 2 past = [4, 5] := by
  intro calls past
  have divides : 2 ∣ 2 ^ 64 := by decide
  have spaced : Spaced 2 calls := by
    intro bytes hBytes
    have hFew := hBytes.length_le
    rw [List.length_map] at hFew
    exact Nat.le_trans hFew (by decide)
  have before : past <+: calls := List.take_prefix ..
  obtain ⟨hPop, hLength, hEmpty⟩ := queue_refined divides spaced before
  exact ⟨divides, spaced, before, hPop, hLength, hEmpty, rfl⟩

end Ring

end Multidrop
