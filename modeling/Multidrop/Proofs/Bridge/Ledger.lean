import Multidrop.Proofs.Bridge.Handling
import Multidrop.Proofs.Ring

/-!
What becomes of the bytes that a bridge receives. As long as its ring is not overrun, every byte is
given to the host once, in the order in which they came, or is dropped by the first transmission
that empties the ring after it came, or is still in the ring. Nothing that came before the end of a
flush is given to the host after it. The ring is emptied a moment after the flush has ended, and a
byte that comes in between is dropped too, though that flush ended before it came.
-/

namespace Multidrop.Bridge

/-- What becomes of a byte that came in. -/
inductive Fate where
  /-- It is still in the ring. -/
  | waiting
  /-- It is in the answer to a packet for received bytes, the first of which has number zero. -/
  | returned (reading : Nat)
  /-- It was dropped when a transmission emptied the ring, the first of which has number zero. -/
  | dropped (transmission : Nat)
  deriving DecidableEq

/-- A byte that came in, and when it did: after how many happenings. -/
structure Entry where
  moment : Nat
  byte : UInt8
  fate : Fate

def Entry.arrival (entry : Entry) : Nat × UInt8 :=
  (entry.moment, entry.byte)

def Entry.isReturned (entry : Entry) : Bool :=
  match entry.fate with
  | .returned _ => true
  | _ => false

/-- The entry of a byte once this became of it. -/
def Entry.meets (entry : Entry) (fate : Fate) : Entry :=
  { entry with fate }

@[simp] theorem Entry.meets_moment (entry : Entry) (fate : Fate) :
    (entry.meets fate).moment = entry.moment :=
  rfl

@[simp] theorem Entry.meets_byte (entry : Entry) (fate : Fate) :
    (entry.meets fate).byte = entry.byte :=
  rfl

@[simp] theorem Entry.meets_fate (entry : Entry) (fate : Fate) :
    (entry.meets fate).fate = fate :=
  rfl

/-- The bytes that met this fate. -/
def bytesOf (ledger : List Entry) (fate : Fate) : List UInt8 :=
  (ledger.filter (·.fate = fate)).map Entry.byte

/-- The bytes that came in, each with its moment. -/
def arrived (history : List Happening) : List (Nat × UInt8) :=
  history.zipIdx.filterMap fun (happening, moment) => happening.byte?.map (moment, ·)

/-- How many flushes ended. -/
def flushes (history : List Happening) : Nat :=
  history.count .flushed

/-- How many transmissions emptied the ring. -/
def clearings (history : List Happening) : Nat :=
  history.count .cleared

/-- The answers to packets for received bytes. -/
def replies (history : List Happening) : List (List UInt8) :=
  history.filterMap Happening.given?

/-- The answers to packets for received bytes, with what a packet got so far that is still at it. -/
def Working.readings (working : Working) : List (List UInt8) :=
  replies working.history ++ working.stage.inHand

section History

variable {history : List Happening} {happening : Happening}

/-- Whatever happens now, what came before keeps its moment. -/
theorem arrived_concat (history : List Happening) (happening : Happening) :
    arrived (history ++ [happening]) =
      arrived history ++ (happening.byte?.map (history.length, ·)).toList := by
  rw [arrived, List.zipIdx_append, List.filterMap_append, Nat.zero_add]
  cases hByte : happening.byte? with
  | none => simp [arrived, hByte]
  | some byte => simp [arrived, hByte]

theorem count_concat_of_ne {mark : Happening} (h : happening ≠ mark) :
    (history ++ [happening]).count mark = history.count mark := by
  rw [List.count_append, List.count_singleton, if_neg (by simpa using h), Nat.add_zero]

theorem count_concat_self (history : List Happening) (mark : Happening) :
    (history ++ [mark]).count mark = history.count mark + 1 := by
  rw [List.count_append, List.count_singleton_self]

theorem count_take_le (history : List Happening) (mark : Happening) (moment : Nat) :
    (history.take moment).count mark ≤ history.count mark :=
  (List.take_sublist ..).count_le _

/-- Only an answer with received bytes adds to the replies. -/
theorem replies_concat (history : List Happening) (happening : Happening) :
    replies (history ++ [happening]) = replies history ++ happening.given?.toList := by
  rw [replies, List.filterMap_append]
  cases hGiven : happening.given? with
  | none => simp [replies, hGiven]
  | some bytes => simp [replies, hGiven]

/-- A byte came before now. -/
theorem lt_of_mem_arrived {moment : Nat} {byte : UInt8} (h : (moment, byte) ∈ arrived history) :
    moment < history.length := by
  rw [arrived, List.mem_filterMap] at h
  obtain ⟨⟨found, place⟩, hMem, hByte⟩ := h
  obtain ⟨_, _, hPlace⟩ := Option.map_eq_some_iff.mp hByte
  have hIn := (List.mem_zipIdx hMem).2.1
  cases hPlace
  omega

/-- What happened as often before a moment as it happened at all did not happen since. -/
theorem not_happened_since {mark : Happening} {moment later : Nat}
    (h : (history.take moment).count mark = history.count mark) (hLater : moment ≤ later) :
    history[later]? ≠ some mark := by
  intro hMark
  have hSplit : (history.take moment).count mark + (history.drop moment).count mark =
      history.count mark := by
    rw [← List.count_append, List.take_append_drop]
  have hNone : mark ∉ history.drop moment := by
    rw [← List.count_eq_zero]
    exact Nat.add_left_cancel (hSplit.trans h.symm)
  refine hNone (List.mem_of_getElem? (i := later - moment) ?_)
  rw [List.getElem?_drop, Nat.add_sub_cancel' hLater, hMark]

/-- A moment of a longer history is one of the history, or its last. -/
theorem getElem?_concat_eq_some {moment : Nat} {found : Happening}
    (h : (history ++ [happening])[moment]? = some found) :
    history[moment]? = some found ∧ moment < history.length ∨
      moment = history.length ∧ found = happening := by
  rcases Nat.lt_trichotomy moment history.length with hBefore | hLast | hAfter
  · rw [List.getElem?_append_left hBefore] at h
    exact .inl ⟨h, hBefore⟩
  · rw [hLast, List.getElem?_concat_length] at h
    exact .inr ⟨hLast, (Option.some.inj h).symm⟩
  · rw [List.getElem?_eq_none (by rw [List.length_append]; exact hAfter)] at h
    cases h

end History

/-- How many flushes have ended whose ring is yet to be emptied. -/
def Stage.behind : Stage → Nat
  | .clearing => 1
  | _ => 0

/-- Each flush is followed by the emptying of the ring before the next one ends. -/
structure Paired (stage : Stage) (history : List Happening) : Prop where
  now : flushes history = clearings history + stage.behind
  past : ∀ moment, clearings (history.take moment) ≤ flushes (history.take moment) ∧
    flushes (history.take moment) ≤ clearings (history.take moment) + 1

namespace Paired

variable {stage next : Stage} {history : List Happening} {happening : Happening}

theorem start : Paired .away [] :=
  ⟨rfl, fun moment => by rw [List.take_nil]; exact ⟨Nat.le_refl _, Nat.zero_le _⟩⟩

/-- What is paired so far stays so, if it is with what happens now. -/
theorem concat (paired : Paired stage history)
    (now : flushes (history ++ [happening]) = clearings (history ++ [happening]) + next.behind) :
    Paired next (history ++ [happening]) where
  now := now
  past moment := by
    by_cases hMoment : moment ≤ history.length
    · rw [List.take_append_of_le_length hMoment]
      exact paired.past moment
    · have hBehind : next.behind ≤ 1 := by
        cases next with
        | clearing => exact Nat.le_refl _
        | _ => exact Nat.zero_le _
      rw [List.take_of_length_le (by rw [List.length_append, List.length_singleton]; omega)]
      omega

/-- What is no part of a transmission changes nothing of this. -/
theorem note (paired : Paired stage history) (hFlushed : happening ≠ .flushed)
    (hCleared : happening ≠ .cleared) (hBehind : next.behind = stage.behind) :
    Paired next (history ++ [happening]) := by
  refine paired.concat ?_
  rw [flushes, clearings, count_concat_of_ne hFlushed, count_concat_of_ne hCleared, hBehind]
  exact paired.now

/-- When a flush ends, the ring is yet to be emptied. -/
theorem flushed (paired : Paired .flushing history) :
    Paired .clearing (history ++ [.flushed]) := by
  have hOther : Happening.flushed ≠ .cleared := nofun
  refine paired.concat ?_
  rw [flushes, clearings, count_concat_self, count_concat_of_ne hOther]
  exact congrArg (· + 1) paired.now

/-- When the ring is emptied, that is made up for. -/
theorem cleared (paired : Paired .clearing history) :
    Paired .releasing (history ++ [.cleared]) := by
  have hOther : Happening.cleared ≠ .flushed := nofun
  refine paired.concat ?_
  rw [flushes, clearings, count_concat_self, count_concat_of_ne hOther]
  exact paired.now

/-- Where the ring was not emptied since, no flush ended since, unless one just did. -/
theorem not_flushed_since (paired : Paired stage history) (h : stage ≠ .clearing)
    {moment later : Nat} (since : clearings (history.take moment) = clearings history)
    (hLater : moment ≤ later) : history[later]? ≠ some .flushed := by
  have hEven : flushes history = clearings history := by
    rw [paired.now]
    cases stage with
    | clearing => exact absurd rfl h
    | _ => rfl
  have hPast := (paired.past moment).1
  have hLe : flushes (history.take moment) ≤ flushes history := count_take_le ..
  refine not_happened_since (Nat.le_antisymm hLe ?_) hLater
  calc flushes history = clearings history := hEven
    _ = clearings (history.take moment) := since.symm
    _ ≤ flushes (history.take moment) := hPast

end Paired

/-- An entry of a byte that is still in the ring, which was not emptied since it came. -/
structure Entry.Waits (entry : Entry) (history : List Happening) : Prop where
  fate : entry.fate = .waiting
  since : clearings (history.take entry.moment) = clearings history

/-- A happening after which nothing that came before is returned. -/
def Happening.Parts (happening : Happening) : Prop :=
  happening = .flushed ∨ happening = .cleared

/-- An entry of a byte that is gone, with the fate that it may have. -/
structure Entry.Settled (entry : Entry) (history : List Happening) : Prop where
  fate : entry.fate ≠ .waiting
  dropped : ∀ transmission, entry.fate = .dropped transmission →
    transmission = clearings (history.take entry.moment) ∧ transmission < clearings history
  returned : ∀ reading, entry.fate = .returned reading → ∀ moment, entry.moment < moment →
    ∀ happening, happening.Parts → history[moment]? = some happening →
      reading < (replies (history.take moment)).length

namespace Entry

variable {entry : Entry} {history : List Happening} {happening : Happening}

/-- A byte goes on waiting until the ring is emptied. -/
theorem Waits.concat (waits : entry.Waits history) (hMoment : entry.moment ≤ history.length)
    (h : happening ≠ .cleared) : entry.Waits (history ++ [happening]) where
  fate := waits.fate
  since := by
    rw [List.take_append_of_le_length hMoment, waits.since]
    exact (count_concat_of_ne h).symm

/-- A byte that is gone keeps its fate. When a flush ends or the ring is emptied, what was returned
was returned before. -/
theorem Settled.concat (settled : entry.Settled history) (hMoment : entry.moment ≤ history.length)
    (h : happening.Parts → ∀ reading, entry.fate = .returned reading →
      reading < (replies history).length) : entry.Settled (history ++ [happening]) where
  fate := settled.fate
  dropped transmission hFate := by
    obtain ⟨hFirst, hEnded⟩ := settled.dropped transmission hFate
    have hLonger : clearings history ≤ clearings (history ++ [happening]) :=
      (List.sublist_append_left ..).count_le _
    rw [List.take_append_of_le_length hMoment]
    exact ⟨hFirst, Nat.lt_of_lt_of_le hEnded hLonger⟩
  returned reading hFate moment hLater found parts hFound := by
    rcases getElem?_concat_eq_some hFound with ⟨hBefore, hIn⟩ | ⟨hLast, hNow⟩
    · rw [List.take_append_of_le_length (Nat.le_of_lt hIn)]
      exact settled.returned reading hFate moment hLater found parts hBefore
    · rw [hLast, List.take_left]
      exact h (hNow ▸ parts) reading hFate

/-- A byte that waits may be returned, unless a flush just ended. -/
theorem Waits.returned (waits : entry.Waits history) {stage : Stage} (paired : Paired stage history)
    (hStage : stage ≠ .clearing) (reading : Nat) :
    (entry.meets (.returned reading)).Settled history where
  fate := nofun
  dropped := nofun
  returned _ _ moment hLater happening parts hHappened := by
    have hMoment : entry.moment ≤ moment := Nat.le_of_lt hLater
    rcases parts with rfl | rfl
    · exact absurd hHappened (paired.not_flushed_since hStage waits.since hMoment)
    · exact absurd hHappened (not_happened_since waits.since hMoment)

/-- A byte that waits when the ring is emptied is dropped then. -/
theorem Waits.dropped (waits : entry.Waits history) (hMoment : entry.moment ≤ history.length) :
    (entry.meets (.dropped (clearings history))).Settled (history ++ [.cleared]) where
  fate := nofun
  dropped transmission hFate := by
    cases hFate
    rw [Entry.meets_moment, List.take_append_of_le_length hMoment]
    exact ⟨waits.since.symm, by rw [clearings, clearings, count_concat_self]; omega⟩
  returned := nofun

end Entry

theorem bytesOf_concat (ledger : List Entry) (entry : Entry) (fate : Fate) :
    bytesOf (ledger ++ [entry]) fate =
      bytesOf ledger fate ++ if entry.fate = fate then [entry.byte] else [] := by
  rw [bytesOf, List.filter_append, List.map_append, List.filter_singleton]
  by_cases h : entry.fate = fate
  · simp [bytesOf, h]
  · simp [bytesOf, h]

theorem getD_concat (given : List (List UInt8)) (taken : List UInt8) (reading : Nat) :
    ((given ++ [taken])[reading]?).getD [] =
      if reading = given.length then taken else (given[reading]?).getD [] := by
  by_cases hLast : reading = given.length
  · rw [hLast, List.getElem?_concat_length, if_pos rfl, Option.getD_some]
  · rw [if_neg hLast, List.getElem?_append]
    split
    · rfl
    · rw [List.getElem?_eq_none (by rw [List.length_singleton]; omega),
        List.getElem?_eq_none (by omega)]

/-- The books kept beside a ring: the entries of what is gone, then those of what waits. -/
structure Books (ring : Ring) (history : List Happening) (readings : List (List UInt8))
    (settled waiting : List Entry) : Prop where
  entries : (settled ++ waiting).map Entry.arrival = arrived history
  tracks : ring.Tracks ((settled ++ waiting).map Entry.byte) settled.length
  waits : ∀ entry ∈ waiting, entry.Waits history
  settles : ∀ entry ∈ settled, entry.Settled history
  returned : ∀ reading, bytesOf settled (.returned reading) = (readings[reading]?).getD []
  ordered : (settled.filter Entry.isReturned).map Entry.byte = readings.flatten

namespace Books

variable {ring : Ring} {history : List Happening} {readings : List (List UInt8)}
  {settled waiting : List Entry}

/-- Every entry is about a byte that came before now. -/
theorem moment_lt (books : Books ring history readings settled waiting) {entry : Entry}
    (h : entry ∈ settled ++ waiting) : entry.moment < history.length := by
  have hMem : entry.arrival ∈ arrived history := by
    rw [← books.entries]
    exact List.mem_map_of_mem h
  exact lt_of_mem_arrived hMem

/-- What was returned was returned to some packet. -/
theorem reading_lt (books : Books ring history readings settled waiting) {entry : Entry}
    (hMem : entry ∈ settled) {reading : Nat} (hFate : entry.fate = .returned reading) :
    reading < readings.length := by
  refine Nat.lt_of_not_le fun hBeyond => ?_
  have hByte : entry.byte ∈ bytesOf settled (.returned reading) :=
    List.mem_map_of_mem (List.mem_filter.mpr ⟨hMem, decide_eq_true hFate⟩)
  rw [books.returned, List.getElem?_eq_none hBeyond] at hByte
  cases hByte

/-- Happenings that are no bytes and do not empty the ring leave the books alone, as long as nothing
is being returned when a flush ends. -/
theorem note (books : Books ring history readings settled waiting) {happening : Happening}
    (hByte : happening.byte? = none) (hCleared : happening ≠ .cleared)
    (hReadings : happening = .flushed → readings = replies history) :
    Books ring (history ++ [happening]) readings settled waiting where
  entries := by rw [arrived_concat, hByte, books.entries]; exact (List.append_nil _).symm
  tracks := books.tracks
  waits entry hMem := (books.waits entry hMem).concat
    (Nat.le_of_lt (books.moment_lt (List.mem_append_right _ hMem))) hCleared
  settles entry hMem := by
    refine (books.settles entry hMem).concat
      (Nat.le_of_lt (books.moment_lt (List.mem_append_left _ hMem))) fun parts reading hFate => ?_
    rcases parts with hFlushed | hNow
    · exact hReadings hFlushed ▸ books.reading_lt hMem hFate
    · exact absurd hNow hCleared
  returned := books.returned
  ordered := books.ordered

/-- A packet for received bytes has got nothing yet. -/
theorem openReading (books : Books ring history readings settled waiting) :
    Books ring history (readings ++ [[]]) settled waiting where
  entries := books.entries
  tracks := books.tracks
  waits := books.waits
  settles := books.settles
  returned reading := by
    rw [books.returned, getD_concat]
    split
    case isTrue hLast => rw [hLast, List.getElem?_eq_none (Nat.le_refl _), Option.getD_none]
    case isFalse => rfl
  ordered := by rw [books.ordered, List.flatten_append]; exact (List.append_nil _).symm

/-- A byte that comes waits behind the others. -/
theorem came (books : Books ring history readings settled waiting)
    (room : waiting.length + 1 < 2 ^ 64) (byte : UInt8) :
    Books (ring.push byte) (history ++ [.came byte]) readings settled
      (waiting ++ [⟨history.length, byte, .waiting⟩]) where
  entries := by
    rw [arrived_concat, ← books.entries, ← List.append_assoc, List.map_append]
    rfl
  tracks := by
    have hRoom : ((settled ++ waiting).map Entry.byte).length - settled.length + 1 < 2 ^ 64 := by
      rwa [List.length_map, List.length_append, Nat.add_sub_cancel_left]
    rw [← List.append_assoc, List.map_append]
    exact books.tracks.push hRoom byte
  waits entry hMem := by
    rcases List.mem_append.mp hMem with hBefore | hNew
    · exact (books.waits entry hBefore).concat
        (Nat.le_of_lt (books.moment_lt (List.mem_append_right _ hBefore))) nofun
    · have hByte : Happening.came byte ≠ .cleared := nofun
      rw [List.mem_singleton.mp hNew]
      refine ⟨rfl, ?_⟩
      rw [List.take_left]
      exact (count_concat_of_ne hByte).symm
  settles entry hMem := (books.settles entry hMem).concat
    (Nat.le_of_lt (books.moment_lt (List.mem_append_left _ hMem))) (fun parts => nomatch parts)
  returned := books.returned
  ordered := books.ordered

/-- What is unread is what waits. -/
theorem unread (books : Books ring history readings settled waiting) :
    ring.unread = waiting.length := by
  rw [books.tracks.unread, List.length_map, List.length_append, Nat.add_sub_cancel_left]

theorem pop_none (books : Books ring history readings settled []) : ring.pop = (none, ring) := by
  refine books.tracks.pop_none ?_
  rw [List.append_nil, List.length_map]

/-- The packet that is at it gets the byte that waits the longest. -/
theorem took {given : List (List UInt8)} {taken : List UInt8} {entry : Entry} {stage : Stage}
    (books : Books ring history (given ++ [taken]) settled (entry :: waiting))
    (paired : Paired stage history) (hStage : stage ≠ .clearing)
    (fits : ring.unread ≤ ring.capacity) :
    ring.pop.1 = some entry.byte ∧
      Books ring.pop.2 history (given ++ [taken ++ [entry.byte]])
        (settled ++ [entry.meets (.returned given.length)]) waiting := by
  have waits := books.waits entry (List.mem_cons_self ..)
  have hUnread := books.tracks.unread
  have hBytes : (settled ++ entry :: waiting).map Entry.byte =
      (settled ++ [entry.meets (.returned given.length)] ++ waiting).map Entry.byte := by
    simp only [List.map_append, List.map_cons, List.append_assoc, List.cons_append, List.nil_append,
      Entry.meets_byte]
  obtain ⟨hPop, tracks⟩ := books.tracks.pop_next (by omega) (by
    rw [List.length_map, List.length_append]
    exact Nat.lt_add_of_pos_right (Nat.succ_pos _))
  refine ⟨?_, ?_, ?_, fun other hMem => books.waits other (List.mem_cons_of_mem _ hMem), ?_, ?_, ?_⟩
  · rw [hPop, List.getElem?_map, List.getElem?_append_right (Nat.le_refl _), Nat.sub_self]
    rfl
  · rw [← books.entries]
    simp only [List.map_append, List.map_cons, List.append_assoc, List.cons_append, List.nil_append]
    rfl
  · rw [← hBytes, List.length_append]
    exact tracks
  · intro other hMem
    rcases List.mem_append.mp hMem with hBefore | hNew
    · exact books.settles other hBefore
    · rw [List.mem_singleton.mp hNew]
      exact waits.returned paired hStage given.length
  · intro reading
    rw [bytesOf_concat, books.returned, getD_concat, getD_concat, Entry.meets_fate,
      Entry.meets_byte]
    by_cases hLast : reading = given.length
    · rw [if_pos hLast, if_pos hLast, if_pos (congrArg Fate.returned hLast.symm)]
    · rw [if_neg hLast, if_neg hLast, if_neg fun hFate => hLast (Fate.returned.inj hFate).symm,
        List.append_nil]
  · rw [List.filter_append, List.map_append, books.ordered, List.flatten_append,
      List.flatten_append, List.append_assoc, List.flatten_singleton, List.flatten_singleton]
    rfl

/-- When the ring is emptied, all that waits is dropped. -/
theorem cleared (books : Books ring history (replies history) settled waiting) :
    Books ring.clear (history ++ [.cleared]) (replies history)
      (settled ++ waiting.map (·.meets (.dropped (clearings history)))) [] := by
  have hSame {α : Type} (field : Entry → α) (hField : ∀ entry fate, field (entry.meets fate) =
      field entry) : (settled ++ waiting.map (·.meets (.dropped (clearings history)))).map field =
        (settled ++ waiting).map field := by
    rw [List.map_append, List.map_map, List.map_append]
    exact congrArg _ (List.map_congr_left fun entry _ => hField entry _)
  have hNone (chosen : Entry → Bool) (hChosen : ∀ entry transmission,
      chosen (Entry.meets entry (.dropped transmission)) = false) :
      (waiting.map (·.meets (.dropped (clearings history)))).filter chosen = [] := by
    rw [List.filter_eq_nil_iff]
    intro entry hMem
    obtain ⟨before, _, rfl⟩ := List.mem_map.mp hMem
    rw [hChosen before]
    exact Bool.false_ne_true
  refine ⟨?_, ?_, nofun, ?_, ?_, ?_⟩
  · rw [List.append_nil, hSame Entry.arrival fun _ _ => rfl, books.entries, arrived_concat]
    exact (List.append_nil _).symm
  · have hLength : (settled ++ waiting.map (·.meets (.dropped (clearings history)))).length =
        ((settled ++ waiting).map Entry.byte).length := by
      rw [List.length_append, List.length_map, List.length_map, List.length_append]
    rw [List.append_nil, hSame Entry.byte fun _ _ => rfl, hLength]
    exact books.tracks.clear
  · intro entry hMem
    rcases List.mem_append.mp hMem with hBefore | hDropped
    · exact (books.settles entry hBefore).concat
        (Nat.le_of_lt (books.moment_lt (List.mem_append_left _ hBefore)))
        fun _ _ hFate => books.reading_lt hBefore hFate
    · obtain ⟨before, hWaits, rfl⟩ := List.mem_map.mp hDropped
      exact (books.waits before hWaits).dropped
        (Nat.le_of_lt (books.moment_lt (List.mem_append_right _ hWaits)))
  · intro reading
    rw [bytesOf, List.filter_append, hNone _ fun _ _ => rfl, List.append_nil]
    exact books.returned reading
  · rw [List.filter_append, hNone _ fun _ _ => rfl, List.append_nil]
    exact books.ordered

end Books

namespace Working

variable {working : Working} {capacity : Nat}

/-- Books are kept of all that came in, and the ring is as long as it was. -/
def Kept (working : Working) (capacity : Nat) : Prop :=
  working.bridge.ring.capacity = capacity ∧ Paired working.stage working.history ∧
    ∃ settled waiting, Books working.bridge.ring working.history working.readings settled waiting

theorem readings_of_inHand (h : working.stage.inHand = []) :
    working.readings = replies working.history := by
  rw [readings, h, List.append_nil]

/-- Something happened that is no byte and no part of a transmission, and what the packets got is
what it was. -/
theorem Kept.note (kept : working.Kept capacity) {stage : Stage} {happening : Happening}
    (hByte : happening.byte? = none) (hParts : ¬happening.Parts)
    (hBehind : stage.behind = working.stage.behind)
    (hReadings : happening.given?.toList ++ stage.inHand = working.stage.inHand) :
    Kept ⟨working.bridge, stage, working.history ++ [happening]⟩ capacity := by
  obtain ⟨hCapacity, paired, settled, waiting, books⟩ := kept
  obtain ⟨hFlushed, hCleared⟩ := not_or.mp hParts
  refine ⟨hCapacity, paired.note hFlushed hCleared hBehind, settled, waiting, ?_⟩
  have hSame : readings ⟨working.bridge, stage, working.history ++ [happening]⟩ =
      working.readings := by
    rw [readings, readings, replies_concat, List.append_assoc, hReadings]
  rw [hSame]
  exact books.note hByte hCleared fun h => absurd h hFlushed

/-- The bridge went on with its packet, but not with the ring. -/
theorem Kept.goOn (kept : working.Kept capacity) {stage : Stage} {trace : Line.Trace}
    (hBehind : stage.behind = working.stage.behind)
    (hReadings : stage.inHand = working.stage.inHand) :
    Kept ⟨⟨working.bridge.ring, trace⟩, stage, working.history⟩ capacity := by
  obtain ⟨hCapacity, paired, settled, waiting, books⟩ := kept
  refine ⟨hCapacity, ⟨hBehind ▸ paired.now, paired.past⟩, settled, waiting, ?_⟩
  rw [readings, hReadings]
  exact books

/-- A byte that came is accounted for, as long as the ring has room. -/
theorem Kept.byte (kept : working.Kept capacity) (room : capacity + 1 < 2 ^ 64)
    (fits : working.bridge.ring.unread ≤ capacity) (byte : UInt8) :
    (working.step (.byte byte)).Kept capacity := by
  obtain ⟨hCapacity, paired, settled, waiting, books⟩ := kept
  have hWaiting := books.unread
  have hSame : (working.step (.byte byte)).readings = working.readings := by
    rw [readings, step, replies_concat]
    exact congrArg (· ++ _) (List.append_nil _)
  have came := books.came (by omega) byte
  rw [← hSame] at came
  exact ⟨(Ring.capacity_push ..).trans hCapacity, paired.note (by simp) (by simp) rfl, settled, _,
    came⟩

/-- A packet that the host hands over moves no byte. -/
theorem Kept.packet (kept : working.Kept capacity) (request : List UInt8) :
    (working.step (.packet request)).Kept capacity := by
  rw [step]
  split
  case isFalse => exact kept
  case isTrue hAway =>
    have hNone : working.stage.inHand = [] := by rw [hAway]; rfl
    cases Packet.ofRequest request with
    | transmit data =>
        exact kept.note rfl (by simp [Happening.Parts]) (by rw [hAway]; rfl) hNone.symm
    | receive wanted more =>
        -- The packet counts as a reading from here on, though it has got nothing yet.
        have asked : Kept ⟨working.bridge, .away,
            working.history ++ [.asked (receiveRequest :: wanted :: more)]⟩ capacity :=
          kept.note rfl (by simp [Happening.Parts]) (by rw [hAway]) hNone.symm
        obtain ⟨hCapacity, paired, settled, waiting, books⟩ := asked
        rw [readings_of_inHand rfl] at books
        exact ⟨hCapacity, ⟨paired.now, paired.past⟩, settled, waiting, books.openReading⟩
    | other hOpening hHandle =>
        exact kept.note rfl (by simp [Happening.Parts]) (by rw [hOpening, hAway]; rfl)
          (hOpening ▸ hNone.symm)

/-- One look into the ring gives a byte to the packet that waits for it, or moves none. -/
theorem Kept.collect {ring : Ring} {trace : Line.Trace} {want silence : Nat} {taken : List UInt8}
    {history : List Happening}
    (kept : Kept ⟨⟨ring, trace⟩, .collecting want silence taken, history⟩ capacity)
    (fits : ring.unread ≤ capacity) :
    (proceed ⟨⟨ring, trace⟩, .collecting want silence taken, history⟩).Kept capacity := by
  have here := kept
  obtain ⟨hCapacity, paired, settled, waiting, books⟩ := kept
  by_cases hWant : want = 0
  · rw [proceed, if_pos hWant]
    exact here.note rfl (by simp [Happening.Parts]) rfl rfl
  · rcases waiting with _ | ⟨entry, waiting⟩
    · by_cases hIdle : receiveIdle ≤ silence
      · rw [proceed_idle hWant books.pop_none hIdle]
        exact here.note rfl (by simp [Happening.Parts]) rfl rfl
      · rw [proceed_wait hWant books.pop_none hIdle]
        exact here.goOn rfl rfl
    · obtain ⟨hByte, took⟩ := books.took paired (by simp) (hCapacity.symm ▸ fits)
      rw [proceed_some hWant (Prod.ext hByte rfl)]
      exact ⟨(Ring.capacity_pop ring).trans hCapacity, ⟨paired.now, paired.past⟩, _, _, took⟩

/-- The bridge goes on with its packet, and every byte that moves is accounted for. -/
theorem Kept.proceed (kept : working.Kept capacity) (fits : working.bridge.ring.unread ≤ capacity) :
    working.proceed.Kept capacity := by
  obtain ⟨⟨ring, trace⟩, stage, history⟩ := working
  cases stage with
  | away => exact kept
  | taking data => exact kept.goOn rfl rfl
  | writing data => exact kept.goOn rfl rfl
  | flushing =>
      obtain ⟨hCapacity, paired, settled, waiting, books⟩ := kept
      rw [readings_of_inHand rfl] at books
      have hSame : readings ⟨⟨ring, trace.push .flush⟩, .clearing, history ++ [.flushed]⟩ =
          replies history := by
        rw [readings_of_inHand rfl, replies_concat]
        exact List.append_nil _
      have flushed : Books ring (history ++ [.flushed]) (replies history) settled waiting :=
        books.note rfl nofun fun _ => rfl
      rw [← hSame] at flushed
      exact ⟨hCapacity, paired.flushed, _, _, flushed⟩
  | clearing =>
      obtain ⟨hCapacity, paired, settled, waiting, books⟩ := kept
      rw [readings_of_inHand rfl] at books
      have hSame : readings ⟨⟨ring.clear, trace⟩, .releasing, history ++ [.cleared]⟩ =
          replies history := by
        rw [readings_of_inHand rfl, replies_concat]
        exact List.append_nil _
      have cleared := books.cleared
      rw [← hSame] at cleared
      exact ⟨hCapacity, paired.cleared, _, _, cleared⟩
  | releasing => exact kept.goOn rfl rfl
  | collecting want silence taken => exact kept.collect fits
  | answering reply => exact kept.note rfl (by simp [Happening.Parts]) rfl rfl

theorem Kept.step (kept : working.Kept capacity) (room : capacity + 1 < 2 ^ 64)
    (fits : working.bridge.ring.unread ≤ capacity) (move : Move) :
    (working.step move).Kept capacity := by
  cases move with
  | byte byte => exact kept.byte room fits byte
  | packet request => exact kept.packet request
  | proceed => exact kept.proceed fits

/-- At no point of the run does the ring hold more bytes than it has room for. -/
def Fits (working : Working) (moves : List Move) : Prop :=
  ∀ past, past <+: moves →
    (working.run past).bridge.ring.unread ≤ (working.run past).bridge.ring.capacity

/-- Books that are kept stay so over a run that never overruns the ring. -/
theorem Kept.run (kept : working.Kept capacity) (room : capacity + 1 < 2 ^ 64) {moves : List Move}
    (fits : working.Fits moves) : (working.run moves).Kept capacity := by
  induction moves using List.reverseRecOn with
  | nil => exact kept
  | append_singleton moves move ih =>
      -- What fits as a whole fits up to the last move, so there the books are kept already.
      have hPast := List.prefix_append moves [move]
      have before := ih fun past hBefore => fits past (hBefore.trans hPast)
      rw [run_append]
      exact before.step room (before.1 ▸ fits moves hPast) move

end Working

end Multidrop.Bridge
