import Multidrop.Proofs.Node.Reception
import Multidrop.Proofs.Strict.Operation

/-!
Payloads in the making, in strict operations. A payload of a fixed size fills an array of that size,
whose number of bytes never passes it, and is taken apart only once the array is full.
-/

namespace Multidrop

/-- An array of bytes of which so many have come. -/
structure Filling where
  bytes : List UInt8
  count : Nat

namespace Filling

def fresh (size : Nat) : Filling :=
  ⟨zeros size, 0⟩

/-- The bytes that have come. -/
def come (filling : Filling) : List UInt8 :=
  filling.bytes.take filling.count

/-- Takes a byte unless the array is full. -/
def put (filling : Filling) (byte : UInt8) : Strict Filling := do
  if filling.count < filling.bytes.length then
    let bytes ← Strict.set filling.bytes filling.count byte
    return ⟨bytes, ← Strict.add filling.count 1⟩
  else return filling

/-- The whole array, once it is full. -/
def full? (filling : Filling) : Option (List UInt8) :=
  if filling.count = filling.bytes.length then some filling.bytes else none

theorem length_come {filling : Filling} (h : filling.count ≤ filling.bytes.length) :
    filling.come.length = filling.count := by
  rw [come, List.length_take, Nat.min_eq_left h]

/-- An array is full when as many bytes have come as it has. -/
theorem full?_eq {filling : Filling} (h : filling.count ≤ filling.bytes.length) :
    filling.full? =
      if filling.bytes.length ≤ filling.come.length then some filling.come else none := by
  rw [full?, length_come h]
  by_cases hFull : filling.count = filling.bytes.length
  · rw [if_pos hFull, if_pos (Nat.le_of_eq hFull.symm), come, hFull, List.take_length]
  · rw [if_neg hFull, if_neg (by omega)]

/-- A byte is taken as long as there is room. -/
theorem put_eq {filling : Filling} (h : filling.count ≤ filling.bytes.length)
    (hSize : filling.bytes.length < UInt32.size) (byte : UInt8) :
    ∃ grown, filling.put byte = .ok grown ∧
      grown.come = (if filling.come.length < filling.bytes.length then filling.come ++ [byte]
        else filling.come) ∧
      grown.bytes.length = filling.bytes.length ∧ grown.count ≤ grown.bytes.length := by
  rw [put, length_come h]
  by_cases hMore : filling.count < filling.bytes.length
  · refine ⟨⟨filling.bytes.set filling.count byte, filling.count + 1⟩, ?_, ?_, List.length_set, ?_⟩
    · rw [if_pos hMore, Strict.set_eq hMore, Strict.ok_bind, Strict.add_eq (by omega)]
      rfl
    · rw [if_pos hMore, come, come, List.take_add_one, List.take_set_of_le (Nat.le_refl _),
        List.getElem?_set_self hMore]
      rfl
    · rw [List.length_set]
      exact hMore
  · exact ⟨filling, if_neg hMore, (if_neg hMore).symm, rfl, h⟩

end Filling

def Page.strictOfBytes (bytes : List UInt8) : Strict Page := do
  let part ← Strict.slice bytes 2 (2 + Layout.pageSize)
  let data ← Strict.copy (zeros Layout.pageSize) 0 Layout.pageSize part
  let sum ← Strict.slice bytes (2 + Layout.pageSize) bytes.length
  return {
    index := ofWire [← Strict.get bytes 0, ← Strict.get bytes 1]
    data := Vector.ofFn fun i => data.getD i 0
    checksum := ofWire [← Strict.get sum 0, ← Strict.get sum 1, ← Strict.get sum 2,
      ← Strict.get sum 3] }

def Leds.strictOfBytes (wide : Bool) (bytes : List UInt8) : Strict (Option Leds) := do
  if 2 ≤ bytes.length then
    let first ← Strict.copy [0, 0] 0 2 (← Strict.slice bytes 0 2)
    let values ← Strict.slice bytes 2 bytes.length
    return some { first := ofWire first, wide, values }
  else return none

/-- A payload in the making: an array to be filled, or output values up to the end of the packet. -/
inductive Continuation where
  | fixed (kind : PayloadKind) (filling : Filling)
  | leds (wide : Bool) (bytes : List UInt8)

namespace Continuation

def fresh : PayloadKind → Continuation
  | .leds wide => .leds wide []
  | kind => .fixed kind (.fresh kind.capacity)

/-- What the bytes of a full array mean. -/
def decode (kind : PayloadKind) (bytes : List UInt8) : Strict (Option Payload) := do
  match kind with
  | .query => return some (.query (ofWire bytes))
  | .address => return some (.address (← Strict.get bytes 0))
  | .memory => return some (.memory (ofWire bytes))
  | .page => return some (.page (← Page.strictOfBytes bytes))
  | .leds wide => return (← Leds.strictOfBytes wide bytes).map .leds

/-- Takes one payload byte. The `position` in the packet counts it already. -/
def feed (continuation : Continuation) (byte : UInt8) (position : Nat) (header : Header) :
    Strict (Continuation × Option Payload) := do
  match continuation with
  | .fixed kind filling =>
    let filling ← filling.put byte
    match filling.full? with
    | some bytes => return (.fixed kind filling, ← decode kind bytes)
    | none => return (.fixed kind filling, none)
  | .leds wide bytes =>
    let bytes := if bytes.length < ledPayload then bytes ++ [byte] else bytes
    if position < header.length.toNat then return (.leds wide bytes, none)
    else return (.leds wide bytes, ← decode (.leds wide) bytes)

/-- The same payload, of which only the bytes that have come are kept. -/
def collector : Continuation → Collector
  | .fixed kind filling => ⟨kind, filling.come.toArray⟩
  | .leds wide bytes => ⟨.leds wide, bytes.toArray⟩

/-- What is filled is as long as the payload, and holds no more bytes than that. -/
inductive Sound : Continuation → Prop where
  | fixed {kind : PayloadKind} {filling : Filling} (sized : ∀ wide, kind ≠ .leds wide)
      (size : filling.bytes.length = kind.capacity) (count : filling.count ≤ kind.capacity) :
      Sound (.fixed kind filling)
  | leds (wide : Bool) (bytes : List UInt8) : Sound (.leds wide bytes)

end Continuation

/-- The bytes of a page are two for its index, its data and four for its checksum. -/
theorem Page.exists_fields {bytes : List UInt8} (h : bytes.length = pagePayload) :
    ∃ i₀ i₁ data c₀ c₁ c₂ c₃, bytes = i₀ :: i₁ :: (data ++ [c₀, c₁, c₂, c₃]) ∧
      data.length = Layout.pageSize := by
  rcases bytes with _ | ⟨i₀, _ | ⟨i₁, rest⟩⟩
  case cons.cons =>
      have hRest : rest.length = Layout.pageSize + 4 := by
        simp only [List.length_cons, pagePayload] at h
        omega
      have hTail : (rest.drop Layout.pageSize).length = 4 := by
        rw [List.length_drop, hRest, Nat.add_sub_cancel_left]
      have hSplit := List.take_append_drop Layout.pageSize rest
      generalize rest.drop Layout.pageSize = tail at hTail hSplit
      rcases tail with _ | ⟨c₀, _ | ⟨c₁, _ | ⟨c₂, _ | ⟨c₃, _ | ⟨c₄, tail⟩⟩⟩⟩⟩
      case cons.cons.cons.cons.nil =>
          refine ⟨i₀, i₁, rest.take Layout.pageSize, c₀, c₁, c₂, c₃, by rw [hSplit], ?_⟩
          rw [List.length_take, hRest, Nat.min_eq_left (Nat.le_add_right ..)]
      all_goals simp at hTail
  all_goals simp [pagePayload] at h

theorem Page.ofBytes_concat (i₀ i₁ : UInt8) {data : List UInt8} (c₀ c₁ c₂ c₃ : UInt8)
    (h : data.length = Layout.pageSize) :
    ofBytes (i₀ :: i₁ :: (data ++ [c₀, c₁, c₂, c₃])).toArray =
      { index := ofWire [i₀, i₁]
        data := Vector.ofFn fun i => data.getD i 0
        checksum := ofWire [c₀, c₁, c₂, c₃] } := by
  have hFirst : ((i₀ :: i₁ :: (data ++ [c₀, c₁, c₂, c₃])).toArray.extract 0 2).toList =
      [i₀, i₁] := by
    rw [List.extract_toArray, List.extract_eq_take_drop]
    rfl
  have hLast : ((i₀ :: i₁ :: (data ++ [c₀, c₁, c₂, c₃])).toArray.extract (2 + Layout.pageSize)
      pagePayload).toList = [c₀, c₁, c₂, c₃] := by
    rw [List.extract_toArray, List.extract_eq_take_drop, pagePayload, Nat.add_sub_cancel_left,
      Nat.add_comm 2, List.drop_succ_cons, List.drop_succ_cons, List.drop_left' h]
    rfl
  have hData : (Vector.ofFn fun i : Fin Layout.pageSize =>
      (i₀ :: i₁ :: (data ++ [c₀, c₁, c₂, c₃])).toArray.getD (2 + i) 0) =
      Vector.ofFn fun i => data.getD i 0 := by
    ext i hIn
    have hInside : i < data.length := by omega
    rw [Vector.getElem_ofFn, Vector.getElem_ofFn, Array.getD_eq_getD_getElem?,
      List.getElem?_toArray, Nat.add_comm 2, List.getElem?_cons_succ, List.getElem?_cons_succ,
      List.getElem?_append_left hInside, List.getD_eq_getElem?_getD]
  rw [ofBytes, hFirst, hLast, hData]

/-- A page is decoded without a trap. -/
theorem Page.strictOfBytes_eq {bytes : List UInt8} (h : bytes.length = pagePayload) :
    strictOfBytes bytes = .ok (ofBytes bytes.toArray) := by
  obtain ⟨i₀, i₁, data, c₀, c₁, c₂, c₃, rfl, hData⟩ := exists_fields h
  have hInside : 2 + Layout.pageSize ≤ (i₀ :: i₁ :: (data ++ [c₀, c₁, c₂, c₃])).length := by
    rw [h]
    exact Nat.le_add_right ..
  have hPart : Strict.slice (i₀ :: i₁ :: (data ++ [c₀, c₁, c₂, c₃])) 2 (2 + Layout.pageSize) =
      .ok data := by
    rw [Strict.slice_eq (Nat.le_add_right ..) hInside, Nat.add_comm 2, List.take_succ_cons,
      List.take_succ_cons, List.take_left' hData]
    rfl
  have hCopy : Strict.copy (zeros Layout.pageSize) 0 Layout.pageSize data = .ok data := by
    rw [← hData]
    exact Strict.copy_zeros data
  have hSum : Strict.slice (i₀ :: i₁ :: (data ++ [c₀, c₁, c₂, c₃])) (2 + Layout.pageSize)
      (i₀ :: i₁ :: (data ++ [c₀, c₁, c₂, c₃])).length = .ok [c₀, c₁, c₂, c₃] := by
    rw [Strict.slice_eq hInside (Nat.le_refl _), List.take_length, Nat.add_comm 2,
      List.drop_succ_cons, List.drop_succ_cons, List.drop_left' hData]
  rw [strictOfBytes, hPart, Strict.ok_bind, hCopy, Strict.ok_bind, hSum, Strict.ok_bind,
    ofBytes_concat i₀ i₁ c₀ c₁ c₂ c₃ hData]
  rfl

/-- So are channel values. -/
theorem Leds.strictOfBytes_eq (wide : Bool) (bytes : List UInt8) :
    strictOfBytes wide bytes = .ok (ofBytes? wide bytes.toArray) := by
  rw [strictOfBytes, ofBytes?, List.size_toArray]
  by_cases h : 2 ≤ bytes.length
  · have hTwo : (bytes.take 2).length = 2 := by rw [List.length_take, Nat.min_eq_left h]
    have hFirst : [0, 0].take 0 ++ bytes.take 2 ++ [0, 0].drop 2 =
        (bytes.toArray.extract 0 2).toList := by
      simp
    have hValues : (bytes.take bytes.length).drop 2 =
        (bytes.toArray.extract 2 bytes.length).toList := by
      simp [List.take_of_length_le]
    rw [if_pos h, if_pos h, Strict.slice_eq (Nat.zero_le _) h, Strict.ok_bind, List.drop_zero,
      Strict.copy_eq (by decide) (by decide) hTwo.symm, Strict.ok_bind,
      Strict.slice_eq h (Nat.le_refl _), Strict.ok_bind, hFirst, hValues]
    rfl
  · rw [if_neg h, if_neg h]
    rfl

namespace Continuation

theorem collector_fresh (kind : PayloadKind) : (fresh kind).collector = .fresh kind := by
  cases kind <;> rfl

theorem sound_fresh (kind : PayloadKind) : (fresh kind).Sound := by
  cases kind with
  | leds wide => exact .leds wide []
  | _ => exact .fixed (fun _ => nofun) (length_zeros _) (Nat.zero_le _)

/-- So is every payload that is complete. -/
theorem decode_eq {kind : PayloadKind} {bytes : List UInt8}
    (h : (∀ wide, kind ≠ .leds wide) → bytes.length = kind.capacity) :
    decode kind bytes = .ok (Collector.decode? ⟨kind, bytes.toArray⟩) := by
  cases kind with
  | query => rfl
  | memory => rfl
  | address =>
      have hOne : bytes.length = 1 := h fun _ => nofun
      obtain ⟨byte, rfl⟩ := List.length_eq_one_iff.mp hOne
      change Except.ok (some (Payload.address byte)) = .ok (some (.address (ofWire [byte])))
      rw [ofWire_byte]
  | page =>
      rw [decode, Page.strictOfBytes_eq (h fun _ => nofun)]
      rfl
  | leds wide =>
      rw [decode, Leds.strictOfBytes_eq]
      rfl

theorem capacity_lt (kind : PayloadKind) : kind.capacity < UInt32.size := by
  cases kind with
  | leds wide => exact Nat.lt_of_lt_of_le (Nat.lt_succ_self ledPayload) (by decide)
  | _ => decide

/-- To feed a byte does not trap, and it is what the collector does. -/
theorem feed_eq {continuation : Continuation} (sound : continuation.Sound) (byte : UInt8)
    (position : Nat) (header : Header) :
    ∃ after payload, continuation.feed byte position header = .ok (after, payload) ∧
      continuation.collector.feed byte position header = (after.collector, payload) ∧
      after.Sound := by
  cases sound with
  | @fixed kind filling sized size count =>
      obtain ⟨grown, hPut, hCome, hLength, hCount⟩ :=
        Filling.put_eq (size ▸ count) (size ▸ capacity_lt kind) byte
      rw [size] at hCome hLength
      have hPush : (⟨kind, filling.come.toArray⟩ : Collector).push byte =
          ⟨kind, grown.come.toArray⟩ := by
        rw [Collector.push_toArray, hCome]
      have hComplete : (⟨kind, grown.come.toArray⟩ : Collector).isComplete position header =
          decide (kind.capacity ≤ grown.come.length) :=
        Collector.isComplete_of_fixed sized position header
      refine ⟨.fixed kind grown, if kind.capacity ≤ grown.come.length then
        (⟨kind, grown.come.toArray⟩ : Collector).decode? else none, ?_, ?_,
        .fixed sized hLength (hLength ▸ hCount)⟩
      · rw [feed, hPut, Strict.ok_bind, Filling.full?_eq hCount, hLength]
        by_cases hFull : kind.capacity ≤ grown.come.length
        · have hWhole : grown.come.length = kind.capacity := by
            rw [Filling.length_come hCount] at hFull ⊢
            omega
          rw [if_pos hFull, if_pos hFull]
          dsimp only
          rw [decode_eq fun _ => hWhole]
          rfl
        · rw [if_neg hFull, if_neg hFull]
          rfl
      · rw [collector, Collector.feed, hPush, hComplete]
        simp [collector]
  | leds wide bytes =>
      obtain ⟨grown, hGrown⟩ : ∃ grown,
          (if bytes.length < ledPayload then bytes ++ [byte] else bytes) = grown := ⟨_, rfl⟩
      have hPush : (⟨.leds wide, bytes.toArray⟩ : Collector).push byte =
          ⟨.leds wide, grown.toArray⟩ := by
        rw [← hGrown]
        exact Collector.push_toArray (.leds wide) bytes byte
      refine ⟨.leds wide grown, if header.length.toNat ≤ position then
        (⟨.leds wide, grown.toArray⟩ : Collector).decode? else none, ?_, ?_, .leds wide grown⟩
      · rw [feed, hGrown]
        by_cases hOver : header.length.toNat ≤ position
        · rw [if_neg (Nat.not_lt.mpr hOver), if_pos hOver, decode_eq fun h => absurd rfl (h wide)]
          rfl
        · rw [if_pos (Nat.lt_of_not_le hOver), if_neg hOver]
          rfl
      · rw [collector, Collector.feed, hPush]
        simp [collector, Collector.isComplete]

end Continuation

end Multidrop
