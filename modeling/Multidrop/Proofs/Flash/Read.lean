import Multidrop.Proofs.Flash.Change

/-!
What reading a flash gives. A read depends on the defects and on the bytes it covers and on nothing
else; where no defect refuses reads, it gives exactly these bytes. What reads by and by stops at the
first read that is refused, and the reads made tell how it went.
-/

namespace Multidrop.Flash

/-- The bytes of a range, cut where the memory ends. -/
def slice (flash : Flash) (offset length : Nat) : List UInt8 :=
  (flash.bytes.extract offset (offset + length)).toList

/-- A slice holds the bytes from its offset on. -/
theorem getElem?_slice (flash : Flash) (offset length i : Nat) :
    (flash.slice offset length)[i]? = if i < length then flash.bytes[offset + i]? else none := by
  have hEnd : offset + i < offset + length ↔ i < length := by omega
  simp only [slice, Array.getElem?_toList, Array.getElem?_extract]
  by_cases hIn : i < length
  · simp [hIn]
    omega
  · simp [hIn]
    omega

theorem length_slice (flash : Flash) {offset length : Nat}
    (h : offset + length ≤ flash.bytes.size) : (flash.slice offset length).length = length := by
  simp only [slice, Array.length_toList, Array.size_extract]
  omega

/-- A slice depends on no byte outside of it. -/
theorem slice_congr {first second : Flash} {offset length : Nat}
    (h : ∀ i, offset ≤ i → i < offset + length → first.bytes[i]? = second.bytes[i]?) :
    first.slice offset length = second.slice offset length := by
  apply List.ext_getElem?
  intro i
  rw [getElem?_slice, getElem?_slice]
  split
  · exact h (offset + i) (by omega) (by omega)
  · rfl

/-- A slice is the given bytes when each of them stands in its place. -/
theorem slice_eq_iff {flash : Flash} {offset : Nat} {bytes : List UInt8} :
    flash.slice offset bytes.length = bytes ↔
      ∀ i, i < bytes.length → flash.bytes[offset + i]? = bytes[i]? := by
  constructor
  · intro h i hIn
    rw [← h, getElem?_slice, if_pos hIn]
  · intro h
    apply List.ext_getElem?
    intro i
    rw [getElem?_slice]
    split
    case isTrue hIn => exact h i hIn
    case isFalse hOut => rw [List.getElem?_eq_none (by omega)]

@[simp] theorem slice_zero (flash : Flash) (offset : Nat) : flash.slice offset 0 = [] := by
  apply List.ext_getElem?
  simp [getElem?_slice]

/-- A slice is one slice after the other. -/
theorem slice_add (flash : Flash) {offset first second : Nat}
    (h : offset + first ≤ flash.bytes.size) :
    flash.slice offset (first + second) =
      flash.slice offset first ++ flash.slice (offset + first) second := by
  apply List.ext_getElem?
  intro i
  rw [List.getElem?_append, flash.length_slice h, getElem?_slice, getElem?_slice, getElem?_slice]
  by_cases hFirst : i < first
  · rw [if_pos hFirst, if_pos hFirst, if_pos (by omega)]
  · have hEnd : i < first + second ↔ i - first < second := by omega
    have hPlace : offset + i = offset + first + (i - first) := by omega
    simp only [hFirst, if_false, hEnd, hPlace]

/-- A part of a slice is a slice. -/
theorem take_drop_slice (flash : Flash) {offset length skip count : Nat}
    (h : skip + count ≤ length) :
    ((flash.slice offset length).drop skip).take count = flash.slice (offset + skip) count := by
  apply List.ext_getElem?
  intro i
  rw [List.getElem?_take, List.getElem?_drop, getElem?_slice, getElem?_slice]
  split
  · rw [if_pos (by omega), Nat.add_assoc]
  · rfl

/-- A read is refused or gives the slice it asks for. -/
theorem read_eq (flash : Flash) (offset length : Nat) :
    flash.read offset length =
      match flash.refusal? .read offset length with
      | some error => .error error
      | none => .ok (flash.slice offset length) :=
  rfl

/-- An access that is not refused stays inside the memory. -/
theorem fits_of_allowed {flash : Flash} {access : Access} {offset length : Nat}
    (h : flash.refusal? access offset length = none) : offset + length ≤ flash.bytes.size := by
  unfold refusal? at h
  split at h
  · cases h
  · split at h
    · cases h
    · omega

/-- A read that succeeds stays inside the memory and gives the slice it asks for. -/
theorem slice_of_read {flash : Flash} {offset length : Nat} {bytes : List UInt8}
    (h : flash.read offset length = .ok bytes) :
    offset + length ≤ flash.bytes.size ∧ flash.slice offset length = bytes := by
  rw [read_eq] at h
  split at h
  · cases h
  · next hAllowed => exact ⟨fits_of_allowed hAllowed, Except.ok.inj h⟩

/-- A read that succeeds gives as many bytes as it asks for. -/
theorem length_of_read {flash : Flash} {offset length : Nat} {bytes : List UInt8}
    (h : flash.read offset length = .ok bytes) : bytes.length = length := by
  obtain ⟨hFits, rfl⟩ := slice_of_read h
  exact flash.length_slice hFits

/-- Whether an access is refused does not depend on what the flash holds. -/
theorem refusal?_congr {first second : Flash} (hFaults : first.faults = second.faults)
    (hSize : first.bytes.size = second.bytes.size) (access : Access) (offset length : Nat) :
    first.refusal? access offset length = second.refusal? access offset length := by
  simp only [refusal?, hFaults, hSize]

/-- What is read depends on no byte outside of it. -/
theorem read_congr {first second : Flash} {offset length : Nat}
    (hFaults : first.faults = second.faults) (hSize : first.bytes.size = second.bytes.size)
    (h : ∀ i, offset ≤ i → i < offset + length → first.bytes[i]? = second.bytes[i]?) :
    first.read offset length = second.read offset length := by
  rw [read_eq, read_eq, refusal?_congr hFaults hSize, slice_congr h]

/-- What lies outside the range of some changes reads as before. -/
theorem Confined.read {start stop : Nat} {before after : Flash}
    (confined : Confined start stop before after) {offset length : Nat}
    (h : offset + length ≤ start ∨ stop ≤ offset) :
    after.read offset length = before.read offset length :=
  read_congr confined.faults confined.size fun _ _ _ => confined.outside (by omega)

/-- What was changed elsewhere is no change to a slice. -/
theorem Confined.slice {start stop : Nat} {before after : Flash}
    (confined : Confined start stop before after) {offset length : Nat}
    (h : offset + length ≤ start ∨ stop ≤ offset) :
    after.slice offset length = before.slice offset length :=
  slice_congr fun _ _ _ => confined.outside (by omega)

/-- No defect of the flash refuses to read. -/
def Readable (flash : Flash) : Prop :=
  ∀ fault ∈ flash.faults, fault.access ≠ .read

/-- A flash without defects. -/
structure Sound (flash : Flash) : Prop where
  faults : flash.faults = []
  stuckPages : flash.stuckPages = []
  stuckWords : flash.stuckWords = []

/-- A flash with nothing wrong can be read. -/
theorem Sound.readable {flash : Flash} (sound : flash.Sound) : flash.Readable := by
  simp [Readable, sound.faults]

/-- A flash that can be read gives the bytes that it holds. -/
theorem Readable.read {flash : Flash} (readable : flash.Readable) {offset length : Nat}
    (h : offset + length ≤ flash.bytes.size) :
    flash.read offset length = .ok (flash.slice offset length) := by
  have hFaults : flash.faults.find? (·.refuses .read offset length) = none := by
    rw [List.find?_eq_none]
    intro fault hMem
    simp [Fault.refuses, readable fault hMem]
  have hBounds : ¬flash.bytes.size < offset + length := by omega
  rw [read_eq, refusal?, hFaults]
  simp only [hBounds, if_false]

/-- Reading the bytes from an offset on, or a part of them, gives them. -/
def Holds (flash : Flash) (offset : Nat) (bytes : List UInt8) : Prop :=
  ∀ skip count, skip + count ≤ bytes.length →
    flash.read (offset + skip) count = .ok ((bytes.drop skip).take count)

/-- A flash that can be read holds what stands in it. -/
theorem Readable.holds {flash : Flash} (readable : flash.Readable) {offset length : Nat}
    (h : offset + length ≤ flash.bytes.size) : flash.Holds offset (flash.slice offset length) := by
  intro skip count hInside
  rw [flash.length_slice h] at hInside
  rw [readable.read (by omega), flash.take_drop_slice hInside]

/-- What could be read once can be read wherever the same bytes are and no read is refused. -/
theorem Readable.read_of_ok {first second : Flash} (readable : second.Readable)
    (hSize : first.bytes.size = second.bytes.size) {offset length : Nat} {bytes : List UInt8}
    (h : ∀ i, offset ≤ i → i < offset + length → first.bytes[i]? = second.bytes[i]?)
    (hRead : first.read offset length = .ok bytes) : second.read offset length = .ok bytes := by
  obtain ⟨hFits, rfl⟩ := slice_of_read hRead
  rw [readable.read (hSize ▸ hFits), slice_congr h]

/-- Reads that stay inside the memory are not refused, whatever was changed since. -/
theorem Confined.readable {start stop : Nat} {before after : Flash}
    (confined : Confined start stop before after) (readable : before.Readable) :
    after.Readable := by
  rw [Readable, confined.faults]
  exact readable

/-- A change does not break a flash. -/
theorem Confined.sound {start stop : Nat} {before after : Flash}
    (confined : Confined start stop before after) (sound : before.Sound) : after.Sound :=
  ⟨confined.faults.trans sound.faults, confined.stuckPages.trans sound.stuckPages,
    confined.stuckWords.trans sound.stuckWords⟩

/-- Within a flash without faults nothing is refused. -/
theorem refusal?_of_no_faults {flash : Flash} (hFaults : flash.faults = []) (access : Access)
    {offset length : Nat} (h : offset + length ≤ flash.bytes.size) :
    flash.refusal? access offset length = none := by
  have hBounds : ¬flash.bytes.size < offset + length := by omega
  simp [refusal?, hFaults, hBounds]

/-- Within a flash without faults, whole words are programmed. -/
theorem program_of_no_faults {flash : Flash} (hFaults : flash.faults = []) {offset : Nat}
    {data : List UInt8}
    (hOffset : offset % wordSize = 0) (hLength : data.length % wordSize = 0)
    (h : offset + data.length ≤ flash.bytes.size) :
    flash.program offset data = (.ok (), flash.carryOut (.program offset data)) := by
  have hAligned : ¬(offset % wordSize ≠ 0 ∨ data.length % wordSize ≠ 0) := by omega
  rw [program_eq, programRefusal?, if_neg hAligned, refusal?_of_no_faults hFaults .program h]

/-- Within a flash without faults, whole pages are erased. -/
theorem erase_of_no_faults {flash : Flash} (hFaults : flash.faults = []) {start stop : Nat}
    (hStart : start % Layout.pageSize = 0) (hStop : stop % Layout.pageSize = 0)
    (hOrder : start ≤ stop) (h : stop ≤ flash.bytes.size) :
    flash.erase start stop = (.ok (), flash.carryOut (.erase start stop)) := by
  have hAligned : ¬(start % Layout.pageSize ≠ 0 ∨ stop % Layout.pageSize ≠ 0) := by omega
  rw [erase_eq, eraseRefusal?, if_neg hAligned, refusal?_of_no_faults hFaults .erase (by omega)]

/-- All bits of a range are set. -/
def Blank (flash : Flash) (start stop : Nat) : Prop :=
  ∀ i, start ≤ i → i < stop → flash.bytes[i]? = some 0xFF

/-- A part of what is blank is blank. -/
theorem Blank.mono {flash : Flash} {start start' stop stop' : Nat} (blank : flash.Blank start stop)
    (hStart : start ≤ start') (hStop : stop' ≤ stop) : flash.Blank start' stop' :=
  fun i hLow hHigh => blank i (by omega) (by omega)

/-- Nothing done elsewhere makes a blank range less blank. -/
theorem Blank.confined {start stop start' stop' : Nat} {before after : Flash}
    (blank : before.Blank start stop) (confined : Confined start' stop' before after)
    (h : stop ≤ start' ∨ stop' ≤ start) : after.Blank start stop := by
  intro i hLow hHigh
  rw [confined.outside (by omega)]
  exact blank i hLow hHigh

/-- What is blank reads as ones. -/
theorem Blank.slice {flash : Flash} {start stop : Nat} (blank : flash.Blank start stop)
    {offset length : Nat} (hStart : start ≤ offset) (hStop : offset + length ≤ stop) :
    flash.slice offset length = List.replicate length 0xFF := by
  apply List.ext_getElem?
  intro i
  rw [getElem?_slice, List.getElem?_replicate]
  split
  case isTrue hIn => exact blank (offset + i) (by omega) (by omega)
  case isFalse => rfl

/-- On a blank range, words that are not stuck take the data as it is. -/
theorem Blank.slice_program {flash : Flash} (hStuck : flash.stuckWords = []) {offset : Nat}
    {data : List UInt8} (blank : flash.Blank offset (offset + data.length)) :
    (flash.carryOut (.program offset data)).slice offset data.length = data := by
  rw [slice_eq_iff]
  intro i hIn
  have hOld := blank (offset + i) (by omega) (by omega)
  have hPlace : offset ≤ offset + i := by omega
  simp only [carryOut, getElem?_programmed, hStuck, List.contains_nil, hPlace, and_self, if_true,
    hOld, Option.map_some, Nat.add_sub_cancel_left, List.getD_eq_getElem?_getD,
    List.getElem?_eq_getElem hIn, Option.getD_some]
  exact congrArg some UInt8.neg_one_and

/-- A flash without faults programs whole words inside of it to the end. -/
theorem programAll_of_no_faults {flash : Flash} (hFaults : flash.faults = []) {offset : Nat}
    {pieces : List (List UInt8)} (hOffset : offset % wordSize = 0)
    (hPieces : ∀ piece ∈ pieces, piece.length % wordSize = 0)
    (h : offset + pieces.flatten.length ≤ flash.bytes.size) :
    flash.programAll offset pieces = (.ok (), flash.replay (programs offset pieces)) := by
  induction pieces generalizing flash offset with
  | nil => rfl
  | cons piece rest ih =>
      obtain ⟨hPiece, hRest⟩ := List.forall_mem_cons.mp hPieces
      rw [List.flatten_cons, List.length_append] at h
      rw [programAll, program_of_no_faults hFaults hOffset hPiece (by omega)]
      have hNext : (offset + piece.length) % wordSize = 0 := by
        rw [Nat.add_mod, hOffset, hPiece]
        rfl
      have hInside : offset + piece.length + rest.flatten.length ≤
          (flash.carryOut (.program offset piece)).bytes.size := by
        rw [size_carryOut, Nat.add_assoc]
        exact h
      have hSame : (flash.carryOut (.program offset piece)).faults = [] := hFaults
      exact ih hSame hNext hRest hInside

/-- Pieces programmed into a blank range stand there one after the other. -/
theorem Blank.slice_programs {flash : Flash} (hStuck : flash.stuckWords = []) {offset : Nat}
    {pieces : List (List UInt8)} (blank : flash.Blank offset (offset + pieces.flatten.length))
    (h : offset + pieces.flatten.length ≤ flash.bytes.size) :
    (flash.replay (programs offset pieces)).slice offset pieces.flatten.length =
      pieces.flatten := by
  induction pieces generalizing flash offset with
  | nil => simp
  | cons piece rest ih =>
      rw [List.flatten_cons, List.length_append, ← Nat.add_assoc] at blank h
      rw [List.flatten_cons, List.length_append]
      have confined := Confined.of_program flash offset piece
      have hRest : Confined (offset + piece.length) (offset + piece.length + rest.flatten.length)
          (flash.carryOut (.program offset piece))
          ((flash.carryOut (.program offset piece)).replay (programs (offset + piece.length) rest)) :=
        .of_programs List.prefix_rfl _
      have hHere : (flash.carryOut (.program offset piece)).slice offset piece.length = piece :=
        (blank.mono (Nat.le_refl _) (by omega)).slice_program hStuck
      have hNext : (flash.carryOut (.program offset piece)).Blank (offset + piece.length)
          (offset + piece.length + rest.flatten.length) :=
        (blank.mono (Nat.le_add_right ..) (Nat.le_refl _)).confined confined (.inr (Nat.le_refl _))
      have hSame : (flash.carryOut (.program offset piece)).stuckWords = [] := hStuck
      rw [programs, replay_cons, slice_add _ (by rw [size_replay, size_carryOut]; omega),
        hRest.slice (.inl (Nat.le_refl _)), hHere, ih hSame hNext (by rwa [size_carryOut])]

end Multidrop.Flash

namespace Multidrop

/-- A read of so many bytes at an offset. -/
structure Reading where
  offset : Nat
  length : Nat
  deriving DecidableEq

namespace Reading

def perform (reading : Reading) (flash : Flash) : Except FlashError (List UInt8) :=
  flash.read reading.offset reading.length

def AllSucceed (flash : Flash) (readings : List Reading) : Prop :=
  ∀ reading ∈ readings, ∃ bytes, reading.perform flash = .ok bytes

/-- The last of some reads fails, and those before it succeed. -/
def LastFails (flash : Flash) (readings : List Reading) (error : FlashError) : Prop :=
  ∃ before last, readings = before ++ [last] ∧ AllSucceed flash before ∧
    last.perform flash = .error error

variable {flash : Flash} {reading : Reading} {readings : List Reading} {error : FlashError}

/-- Reads of which the last fails do not all succeed. -/
theorem LastFails.not_allSucceed (fails : LastFails flash readings error) :
    ¬ AllSucceed flash readings := by
  obtain ⟨before, last, rfl, _, hLast⟩ := fails
  intro succeed
  obtain ⟨bytes, hBytes⟩ := succeed last (by simp)
  rw [hLast] at hBytes
  cases hBytes

/-- There is one error that the last read fails with. -/
theorem LastFails.unique {found : FlashError} (first : LastFails flash readings error)
    (second : LastFails flash readings found) : error = found := by
  obtain ⟨_, last, rfl, _, hLast⟩ := first
  obtain ⟨_, same, hSame, _, hFound⟩ := second
  obtain rfl : last = same := List.singleton_inj.mp (List.append_inj' hSame rfl).2
  rw [hLast] at hFound
  exact Except.error.inj hFound

/-- A single read that fails is the last one. -/
theorem lastFails_single (h : reading.perform flash = .error error) :
    LastFails flash [reading] error :=
  ⟨[], reading, rfl, by simp [AllSucceed], h⟩

/-- How reads went that stop at the first one that fails. -/
def Explain {α : Type} (flash : Flash) (readings : List Reading) : Except FlashError α → Prop
  | .ok _ => AllSucceed flash readings
  | .error error => LastFails flash readings error

/-- A read that succeeds before the others changes nothing of how they end. -/
theorem Explain.cons {α : Type} {outcome : Except FlashError α} {bytes : List UInt8}
    (h : reading.perform flash = .ok bytes) (explain : Explain flash readings outcome) :
    Explain flash (reading :: readings) outcome := by
  cases outcome with
  | ok value => exact List.forall_mem_cons.mpr ⟨⟨bytes, h⟩, explain⟩
  | error error =>
      obtain ⟨before, last, rfl, hBefore, hLast⟩ := explain
      exact ⟨reading :: before, last, rfl, List.forall_mem_cons.mpr ⟨⟨bytes, h⟩, hBefore⟩, hLast⟩

end Reading

end Multidrop
