import Multidrop.Proofs.Node.Reachable
import Multidrop.Proofs.Node.Reception

/-!
The grammar of packets. A packet is read as the bytes of a line from its first one on: what it
declares, after how many bytes it is a request and which one, and what a framer keeps of it on the
way there.
-/

namespace Multidrop

/-- A payload has a fixed size unless it consists of output values. -/
theorem PayloadKind.fixed_or_leds (kind : PayloadKind) :
    (∀ wide, kind ≠ .leds wide) ∨ ∃ wide, kind = .leds wide := by
  cases kind with
  | leds wide => exact .inr ⟨wide, rfl⟩
  | query => exact .inl nofun
  | address => exact .inl nofun
  | memory => exact .inl nofun
  | page => exact .inl nofun

namespace Grammar

/-- The first bytes on the line. -/
def front (line : Nat → UInt8) (count : Nat) : List UInt8 :=
  (List.range count).map line

/-- A line on which these bytes come first. -/
def lineOf (bytes : List UInt8) : Nat → UInt8 :=
  fun i => bytes.getD i 0

/-- The line after the header of a packet. -/
def body (line : Nat → UInt8) : Nat → UInt8 :=
  fun i => line (4 + i)

/-- The length that a packet declares in its first two bytes. -/
def length (line : Nat → UInt8) : Nat :=
  (line 0).toNat + 256 * (line 1).toNat

/-- The header in the first four bytes of a packet. -/
def header (line : Nat → UInt8) : Header where
  length := UInt16.ofNat (length line)
  address := line 2
  command := Coded.ofCode (line 3)

/-- A payload of this size completes its packet, unless it does not fit in it. -/
def whole? (length size : Nat) : Option Nat :=
  if 4 + size ≤ length then some (4 + size) else none

/-- After how many bytes a packet of this length is a request, if it becomes one. A payload of a
fixed size is complete with its last byte, output values are complete when the packet is. -/
def completion? (length : Nat) : Accept → Option Nat
  | .ignore => none
  | .execute => some 4
  | .collect .query => whole? length 2
  | .collect .address => whole? length 1
  | .collect .memory => whole? length 4
  | .collect .page => whole? length 1030
  | .collect (.leds _) => if 6 ≤ length then some length else none

/-- What the payload of a packet means, its numbers being written with the least digit first. -/
def payload (line : Nat → UInt8) : Accept → Payload
  | .ignore | .execute => .empty
  | .collect .query => .query (Coded.ofCode (UInt16.ofNat (ofDigits [line 4, line 5])))
  | .collect .address => .address (line 4)
  | .collect .memory =>
    .memory (UInt32.ofNat (ofDigits [line 4, line 5, line 6, line 7]))
  | .collect .page =>
    .page
      { index := UInt16.ofNat (ofDigits [line 4, line 5])
        data := Vector.ofFn fun i => line (6 + i)
        checksum :=
          UInt32.ofNat (ofDigits [line 1030, line 1031, line 1032, line 1033]) }
  | .collect (.leds wide) =>
    .leds
      { first := UInt16.ofNat (ofDigits [line 4, line 5])
        wide
        values := front (fun i => line (6 + i)) (min (length line - 6) 2048) }

section Front

variable (line : Nat → UInt8)

@[simp] theorem length_front (count : Nat) : (front line count).length = count := by
  simp [front]

@[simp] theorem front_zero : front line 0 = [] :=
  rfl

@[simp] theorem front_succ (count : Nat) :
    front line (count + 1) = front line count ++ [line count] := by
  simp [front, List.range_succ]

theorem front_cons (count : Nat) :
    front line (count + 1) = line 0 :: front (fun i => line (i + 1)) count := by
  simp [front, List.range_succ_eq_map, Function.comp_def]

theorem take_front {count size : Nat} (h : size ≤ count) :
    (front line count).take size = front line size := by
  rw [front, ← List.map_take, List.take_range, Nat.min_eq_left h, front]

theorem drop_front (count size : Nat) :
    (front line count).drop size = front (fun i => line (size + i)) (count - size) := by
  apply List.ext_getElem
  · simp
  · intro i _ _
    simp [front]

/-- A field of a payload is read where it stands on the line. -/
theorem extract_front {count stop : Nat} (start : Nat) (h : stop ≤ count) :
    ((front line count).toArray.extract start stop).toList =
      front (fun i => line (start + i)) (stop - start) := by
  simp only [List.extract_toArray, List.extract_eq_take_drop]
  rw [drop_front, take_front]
  exact Nat.sub_le_sub_right h start

theorem getD_front {count i : Nat} (h : i < count) :
    (front line count).toArray.getD i 0 = line i := by
  simp [front, h]

/-- The first two bytes are the declared length. -/
theorem ofDigits_front {count : Nat} (h : 2 ≤ count) :
    ofDigits ((front line count).take 2) = length line := by
  rw [take_front line h]
  rfl

/-- The first four bytes are the header. -/
theorem ofWire_front : (ofWire (front line 4) : Header) = header line := by
  change Header.mk (UInt16.ofNat (length line)) (ofWire [line 2] : UInt8)
    (Coded.ofCode (ofWire [line 3] : UInt8)) = header line
  rw [ofWire_byte, ofWire_byte]
  rfl

theorem toNat_length_header : (header line).length.toNat = length line := by
  rw [← ofWire_front, length_ofWire, ofDigits_front line (by decide)]

/-- The line that a list makes starts with that list. -/
theorem front_lineOf (bytes : List UInt8) : front (lineOf bytes) bytes.length = bytes := by
  apply List.ext_getElem
  · simp
  · intro i _ hBytes
    simp [front, lineOf, hBytes]

end Front

/-- A packet put on the line is read as its header and its payload. -/
theorem lineOf_packet (header : Header) (payload : List UInt8) :
    let line := lineOf (toWire header ++ payload)
    Grammar.header line = header ∧ length line = header.length.toNat ∧
      front (body line) payload.length = payload := by
  intro line
  have hLength : (toWire header).length = 4 := length_toWire header
  have hFront : front line (4 + payload.length) = toWire header ++ payload := by
    rw [← hLength, ← List.length_append]
    exact front_lineOf _
  have hHeader : front line 4 = toWire header := by
    have hTake := congrArg (List.take 4) hFront
    rw [List.take_left' hLength, take_front line (Nat.le_add_right ..)] at hTake
    exact hTake
  have hBody : front (body line) payload.length = payload := by
    have hDrop := congrArg (List.drop 4) hFront
    rw [List.drop_left' hLength, drop_front, Nat.add_sub_cancel_left] at hDrop
    exact hDrop
  have hSame : Grammar.header line = header := by
    rw [← ofWire_front, hHeader, ofWire_toWire]
  exact ⟨hSame, by rw [← toNat_length_header, hSame], hBody⟩

/-- A payload of a fixed size is complete as soon as its collector is full. -/
theorem completion?_fixed {kind : PayloadKind} (fixed : ∀ wide, kind ≠ .leds wide) (length : Nat) :
    completion? length (.collect kind) = whole? length kind.capacity := by
  cases kind with
  | leds wide => exact absurd rfl (fixed wide)
  | query => rfl
  | address => rfl
  | memory => rfl
  | page => rfl

/-- A payload of a fixed size is complete right behind its last byte. -/
theorem eq_of_whole {length size count : Nat} (h : whole? length size = some count) :
    count = 4 + size ∧ count ≤ length := by
  unfold whole? at h
  split at h
  · next hFits =>
      cases h
      exact ⟨rfl, hFits⟩
  · cases h

/-- A payload is complete after the header and before the packet is over. -/
theorem bounds_of_collect {length size : Nat} {kind : PayloadKind}
    (h : completion? length (.collect kind) = some size) : 4 < size ∧ size ≤ length := by
  rcases kind.fixed_or_leds with fixed | ⟨wide, rfl⟩
  · rw [completion?_fixed fixed] at h
    obtain ⟨rfl, hFits⟩ := eq_of_whole h
    exact ⟨Nat.lt_add_of_pos_right (Link.capacity_pos kind), hFits⟩
  · rw [completion?] at h
    split at h
    · next hFits =>
        cases h
        exact ⟨Nat.lt_of_lt_of_le (by decide) hFits, Nat.le_refl _⟩
    · cases h

/-- A packet becomes a request with its header or later, and before it is over. -/
theorem bounds_of_completion {length size : Nat} {wanted : Accept} (hFits : 4 ≤ length)
    (h : completion? length wanted = some size) : 4 ≤ size ∧ size ≤ length := by
  cases wanted with
  | ignore => cases h
  | execute =>
      cases h
      exact ⟨Nat.le_refl 4, hFits⟩
  | collect kind =>
      obtain ⟨hAfter, hBefore⟩ := bounds_of_collect h
      exact ⟨Nat.le_of_lt hAfter, hBefore⟩

/-- The payload bytes kept after so many bytes of the packet. -/
def collector (line : Nat → UInt8) (kind : PayloadKind) (count : Nat) : Collector :=
  ⟨kind, (front (body line) (min (count - 4) kind.capacity)).toArray⟩

/-- What of a packet is kept while it goes by. -/
def collecting? (line : Nat → UInt8) (count : Nat) : Accept → Option Collector
  | .ignore | .execute => none
  | .collect kind => some (collector line kind count)

/-- A packet that is neither a request yet nor over, after so many of its bytes. -/
def underway (line : Nat → UInt8) (wanted : Accept) (count : Nat) : Packet :=
  if count < 4 then .opening (front line count)
  else .passing (header line) count (collecting? line count wanted)

/-- The packet on the line after so many of its bytes, of which there are no more than it takes. -/
def progress (line : Nat → UInt8) (wanted : Accept) (count : Nat) : Packet :=
  match completion? (length line) wanted with
  | some size =>
    if size ≤ count then .ready ⟨header line, payload line wanted⟩ size
    else underway line wanted count
  | none => if max 2 (length line) ≤ count then .idle else underway line wanted count

section Underway

variable {line : Nat → UInt8} {wanted : Accept} {kind : PayloadKind} {count : Nat}

theorem underway_opening (h : count < 4) :
    underway line wanted count = .opening (front line count) :=
  if_pos h

theorem underway_passing (h : 4 ≤ count) :
    underway line wanted count = .passing (header line) count (collecting? line count wanted) :=
  if_neg (Nat.not_lt_of_le h)

theorem position_underway : (underway line wanted count).position = count := by
  unfold underway
  split
  · exact length_front line count
  · rfl

theorem isReady_underway : (underway line wanted count).isReady = false := by
  unfold underway
  split <;> rfl

theorem isOver_underway :
    (underway line wanted count).isOver = decide (max 2 (length line) ≤ count) := by
  unfold underway
  split
  case isTrue hOpening =>
      rw [Packet.isOver_opening, length_front]
      apply decide_eq_decide.mpr
      constructor
      · rintro ⟨hKnown, hOver⟩
        rw [ofDigits_front line hKnown] at hOver
        omega
      · intro hOver
        have hKnown : 2 ≤ count := by omega
        rw [ofDigits_front line hKnown]
        omega
  case isFalse hPassing =>
      rw [Packet.isOver_passing, toNat_length_header]
      apply decide_eq_decide.mpr
      omega

/-- From the completing byte on the request is ready. -/
theorem progress_ready {size : Nat} (h : completion? (length line) wanted = some size)
    (hReady : size ≤ count) :
    progress line wanted count = .ready ⟨header line, payload line wanted⟩ size := by
  simp only [progress, h, hReady, if_true]

/-- A packet without a wanted payload is over at its length. -/
theorem progress_over (h : completion? (length line) wanted = none)
    (hOver : max 2 (length line) ≤ count) : progress line wanted count = .idle := by
  simp only [progress, h, hOver, if_true]

/-- A packet that never becomes a request is underway or over. -/
theorem isReady_progress (h : completion? (length line) wanted = none) :
    (progress line wanted count).isReady = false := by
  simp only [progress, h]
  split
  · rfl
  · exact isReady_underway

/-- Until then the packet is underway. -/
theorem progress_waiting
    (h : ∀ size, completion? (length line) wanted = some size → count < size)
    (hMore : count < max 2 (length line)) :
    progress line wanted count = underway line wanted count := by
  unfold progress
  split
  · next size hSize => exact if_neg (Nat.not_le_of_lt (h size hSize))
  · exact if_neg (Nat.not_le_of_lt hMore)

/-- The collector takes the bytes of the line one by one. -/
theorem push_collector (hPassing : 4 ≤ count) :
    (collector line kind count).push (line count) = collector line kind (count + 1) := by
  have hByte : body line (count - 4) = line count := by
    rw [body, Nat.add_sub_of_le hPassing]
  unfold Collector.push collector
  simp only [List.size_toArray, length_front]
  by_cases hRoom : count - 4 < kind.capacity
  · have hNow : min (count - 4) kind.capacity = count - 4 := by omega
    have hNext : min (count + 1 - 4) kind.capacity = count - 4 + 1 := by omega
    rw [hNow, hNext, if_pos hRoom, front_succ, hByte]
    simp
  · have hNow : min (count - 4) kind.capacity = kind.capacity := by omega
    have hNext : min (count + 1 - 4) kind.capacity = kind.capacity := by omega
    rw [hNow, hNext, if_neg (Nat.lt_irrefl _)]

/-- A collector that is full gives the payload that the bytes on the line stand for. -/
theorem decode_collector (fixed : ∀ wide, kind ≠ .leds wide) (hFull : 4 + kind.capacity ≤ count) :
    (collector line kind count).decode? = some (payload line (.collect kind)) := by
  have hKept : min (count - 4) kind.capacity = kind.capacity := by omega
  rw [collector, hKept]
  cases kind with
  | leds wide => exact absurd rfl (fixed wide)
  | query => rfl
  | address => exact congrArg (some ∘ Payload.address) (ofWire_byte (line 4))
  | memory => rfl
  | page =>
      have hData : ∀ i : Fin Layout.pageSize,
          (front (body line) pagePayload).toArray.getD (2 + i) 0 = line (6 + i) := by
        intro i
        have hInside : 2 + i.val < pagePayload := by
          have hSize := i.isLt
          simp only [Layout.pageSize, pagePayload] at hSize ⊢
          omega
        rw [getD_front _ hInside, body, ← Nat.add_assoc]
      have hPage : Page.ofBytes (front (body line) pagePayload).toArray =
          ⟨ofWire (front (body line) 2), Vector.ofFn fun i => line (6 + i),
            ofWire (front (fun i => body line (1026 + i)) 4)⟩ := by
        unfold Page.ofBytes
        rw [extract_front _ 0 (by decide), extract_front _ _ (Nat.le_refl _)]
        simp only [hData, Nat.zero_add]
        rfl
      exact congrArg (some ∘ Payload.page) hPage

/-- Output values are what follows the channel, as far as it was kept. -/
theorem decode_collector_leds {wide : Bool} (hFits : 6 ≤ length line) :
    (collector line (.leds wide) (length line)).decode? =
      some (payload line (.collect (.leds wide))) := by
  have hKept : min (length line - 4) (PayloadKind.leds wide).capacity =
      2 + min (length line - 6) 2048 := by
    change min (length line - 4) 2050 = _
    omega
  rw [collector, hKept]
  change Option.map Payload.leds (Leds.ofBytes? wide _) = _
  rw [Leds.ofBytes?, if_pos (by simp)]
  simp only [List.size_toArray, length_front]
  rw [extract_front _ 0 (Nat.le_add_right ..), extract_front _ 2 (Nat.le_refl _),
    Nat.add_sub_cancel_left]
  have hValues : (fun i => body line (2 + i)) = fun i => line (6 + i) := by
    funext i
    rw [body, ← Nat.add_assoc]
  rw [hValues]
  rfl

/-- Output values without a whole channel mean nothing. -/
theorem decode_collector_short {wide : Bool} (hShort : length line < 6) :
    (collector line (.leds wide) (length line)).decode? = none := by
  change Option.map Payload.leds (Leds.ofBytes? wide _) = none
  rw [Leds.ofBytes?, if_neg, Option.map_none]
  simp only [collector, List.size_toArray, length_front]
  omega

/-- A payload of a fixed size is complete once all of it has come in. -/
theorem isComplete_fixed (fixed : ∀ wide, kind ≠ .leds wide) (hPassing : 4 ≤ count) :
    (collector line kind count).isComplete count (header line) =
      decide (4 + kind.capacity ≤ count) := by
  have hFull : kind.capacity ≤ (collector line kind count).bytes.size ↔
      4 + kind.capacity ≤ count := by
    simp only [collector, List.size_toArray, length_front]
    omega
  exact (Collector.isComplete_of_fixed fixed count (header line)).trans (decide_eq_decide.mpr hFull)

/-- A payload of channel values is complete at the declared length. -/
theorem isComplete_leds {wide : Bool} :
    (collector line (.leds wide) count).isComplete count (header line) =
      decide (length line ≤ count) := by
  rw [← toNat_length_header]
  rfl

/-- What is awaited and does not come with the next byte is awaited longer. -/
theorem later_of_ne {completion : Option Nat}
    (hWaiting : ∀ size, completion = some size → count < size)
    (hNext : completion ≠ some (count + 1)) :
    ∀ size, completion = some size → count + 1 < size := by
  intro size hSize
  have hNot : size ≠ count + 1 := by
    intro hSame
    rw [hSame] at hSize
    exact hNext hSize
  exact Nat.lt_of_le_of_ne (hWaiting size hSize) hNot.symm

/-- With the byte that completes the payload a collector gives its meaning. -/
theorem decode_of_completion (hMore : count ≤ length line)
    (h : completion? (length line) (.collect kind) = some count) :
    (collector line kind count).isComplete count (header line) = true ∧
      (collector line kind count).decode? = some (payload line (.collect kind)) := by
  rcases kind.fixed_or_leds with fixed | ⟨wide, rfl⟩
  · rw [completion?_fixed fixed, whole?] at h
    split at h
    · cases h
      exact ⟨by rw [isComplete_fixed fixed (by omega)]; simp,
        decode_collector fixed (Nat.le_refl _)⟩
    · cases h
  · rw [completion?] at h
    split at h
    · next hFits =>
        cases h
        exact ⟨by rw [isComplete_leds]; simp, decode_collector_leds hFits⟩
    · cases h

/-- A payload is not complete before the packet is a request, unless it is cut short. -/
theorem not_complete_of_waiting (hPassing : 4 ≤ count) (hMore : count ≤ length line)
    (h : ∀ size, completion? (length line) (.collect kind) = some size → count < size) :
    (collector line kind count).isComplete count (header line) = false ∨
      (collector line kind count).decode? = none := by
  rcases kind.fixed_or_leds with fixed | ⟨wide, rfl⟩
  · left
    rw [isComplete_fixed fixed hPassing, decide_eq_false_iff_not]
    intro hFull
    rw [completion?_fixed fixed] at h
    exact absurd (h _ (if_pos (Nat.le_trans hFull hMore))) (Nat.not_lt_of_le hFull)
  · rcases Nat.lt_or_eq_of_le hMore with hBefore | hLast
    · left
      rw [isComplete_leds, decide_eq_false_iff_not]
      exact Nat.not_le_of_lt hBefore
    · right
      rw [hLast]
      apply decode_collector_short
      apply Nat.lt_of_not_le
      intro hFits
      exact absurd (h _ (if_pos hFits)) (by omega)

/-- The next byte either completes the payload, or the packet stays underway. -/
theorem feed_collector (hPassing : 4 ≤ count) (hMore : count + 1 ≤ length line)
    (hWaiting : ∀ size, completion? (length line) (.collect kind) = some size → count < size) :
    (collector line kind count).feed (line count) (count + 1) (header line) =
      (collector line kind (count + 1),
        if completion? (length line) (.collect kind) = some (count + 1)
        then some (payload line (.collect kind)) else none) := by
  rw [Collector.feed, push_collector hPassing]
  congr 1
  by_cases hLast : completion? (length line) (.collect kind) = some (count + 1)
  · obtain ⟨hComplete, hDecode⟩ := decode_of_completion hMore hLast
    rw [if_pos hComplete, if_pos hLast, hDecode]
  · have hLater := later_of_ne hWaiting hLast
    rw [if_neg hLast]
    rcases not_complete_of_waiting (by omega) hMore hLater with hComplete | hDecode
    · simp [hComplete]
    · simp [hDecode]

end Underway

end Grammar

end Multidrop
