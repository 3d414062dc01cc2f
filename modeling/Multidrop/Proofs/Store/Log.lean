import Multidrop.Store
import Multidrop.Proofs.Flash.Read
import Multidrop.Proofs.Packed

/-!
Well-formed stores. The region holds a log of records, each of which says where the next one starts,
and is blank after the last. A look-up goes through the log and stops in the blank part.
-/

namespace Multidrop.Store

/-- Records that follow one another, from the offset of the first to the offset after the last. -/
inductive Log (flash : Flash) : (start : Nat) → List Record → (free : Nat) → Prop where
  | nil (offset : Nat) : Log flash offset [] offset
  | cons {offset next free : Nat} {record : Record} {records : List Record}
      (hRead : recordAt flash offset = .ok record) (hKind : record.kind ≠ unset)
      (hNext : record.next? = some next) (rest : Log flash next records free) :
      Log flash offset (record :: records) free

/-- A log ends behind its start. -/
theorem Log.le {flash : Flash} {start free : Nat} {records : List Record}
    (log : Log flash start records free) : start ≤ free := by
  induction log with
  | nil offset => exact Nat.le_refl offset
  | cons hRead hKind hNext rest ih =>
      have hOffset := Record.offset_lt_next hNext
      rw [offset_recordAt hRead] at hOffset
      omega

/-- No record of a log lies before its start. -/
theorem Log.start_le {flash : Flash} {start free : Nat} {records : List Record}
    (log : Log flash start records free) : ∀ record ∈ records, start ≤ record.offset := by
  induction log with
  | nil offset => simp
  | cons hRead hKind hNext rest ih =>
      have hOffset := offset_recordAt hRead
      have hFollowing := Record.offset_lt_next hNext
      refine List.forall_mem_cons.mpr ⟨Nat.le_of_eq hOffset.symm, fun record hMem => ?_⟩
      have hLater := ih record hMem
      omega

/-- No record of a log is an empty slot. -/
theorem Log.kind_ne {flash : Flash} {start free : Nat} {records : List Record}
    (log : Log flash start records free) : ∀ record ∈ records, record.kind ≠ unset := by
  induction log with
  | nil offset => simp
  | cons hRead hKind hNext rest ih => exact List.forall_mem_cons.mpr ⟨hKind, ih⟩

/-- A record that stands where the free space started makes the log longer. -/
theorem Log.concat {flash : Flash} {start free next : Nat} {records : List Record} {record : Record}
    (log : Log flash start records free) (hRead : recordAt flash free = .ok record)
    (hKind : record.kind ≠ unset) (hNext : record.next? = some next) :
    Log flash start (records ++ [record]) next := by
  induction log with
  | nil offset => exact .cons hRead hKind hNext (.nil next)
  | cons hFirst hOther hFollowing rest ih => exact .cons hFirst hOther hFollowing (ih hRead)

/-- A record depends on nothing but its header. -/
theorem recordAt_congr {first second : Flash} (hFaults : first.faults = second.faults)
    (hSize : first.bytes.size = second.bytes.size) {offset : Nat}
    (h : ∀ i, offset ≤ i → i < offset + recordHeader → first.bytes[i]? = second.bytes[i]?) :
    recordAt first offset = recordAt second offset := by
  rw [recordAt, recordAt, Flash.read_congr hFaults hSize h]

/-- A log depends on its own bytes alone. -/
theorem Log.congr {first second : Flash} {start free : Nat} {records : List Record}
    (log : Log first start records free) (hFaults : first.faults = second.faults)
    (hSize : first.bytes.size = second.bytes.size)
    (h : ∀ i, start ≤ i → i < free → first.bytes[i]? = second.bytes[i]?) :
    Log second start records free := by
  induction log with
  | nil offset => exact .nil offset
  | cons hRead hKind hNext rest ih =>
      have hOffset := Record.offset_lt_next hNext
      rw [offset_recordAt hRead] at hOffset
      have hEnd := rest.le
      refine .cons ?_ hKind hNext (ih fun i hLow hHigh => h i (by omega) hHigh)
      rw [← hRead]
      exact (recordAt_congr hFaults hSize fun i hLow hHigh => h i hLow (by omega)).symm

/-- So it does not depend on what follows it. -/
theorem Log.confined {before after : Flash} {start free stop : Nat} {records : List Record}
    (log : Log before start records free) (confined : Flash.Confined free stop before after) :
    Log after start records free :=
  log.congr confined.faults.symm confined.size.symm fun _ _ hHigh =>
    (confined.outside (.inl hHigh)).symm

/-- Behind a record that can be read the search goes on, unless the slot is empty. -/
theorem recordsFrom_of_record {store : Store} {flash : Flash} {offset : Nat} {record : Record}
    (hFits : offset + recordHeader ≤ store.stop) (hRead : recordAt flash offset = .ok record) :
    store.recordsFrom flash offset =
      if record.kind = unset then .ok [record]
      else
        match record.next? with
        | none => .ok [record]
        | some following => (record :: ·) <$> store.recordsFrom flash following := by
  rw [recordsFrom, if_pos hFits]
  split
  case h_1 error hError =>
      rw [hRead] at hError
      cases hError
  case h_2 found hFound =>
      rw [hRead] at hFound
      cases hFound
      congr 1
      split
      case h_1 hNone => rw [hNone]
      case h_2 following hFollowing => rw [hFollowing]

/-- It stops at a header that cannot be read. -/
theorem recordsFrom_of_error {store : Store} {flash : Flash} {offset : Nat} {error : StoreError}
    (hFits : offset + recordHeader ≤ store.stop) (hRead : recordAt flash offset = .error error) :
    store.recordsFrom flash offset = .error error := by
  rw [recordsFrom, if_pos hFits]
  split
  case h_1 other hError =>
      rw [hRead] at hError
      cases hError
      rfl
  case h_2 found hFound =>
      rw [hRead] at hFound
      cases hFound

/-- A search passes all records of a log. -/
theorem Log.recordsFrom {store : Store} {flash : Flash} {start free : Nat} {records : List Record}
    (log : Log flash start records free) (hFree : free ≤ store.stop) :
    store.recordsFrom flash start = (records ++ ·) <$> store.recordsFrom flash free := by
  induction log with
  | nil offset => exact (id_map _).symm
  | cons hRead hKind hNext rest ih =>
      have hOffset := Record.offset_lt_next hNext
      rw [offset_recordAt hRead] at hOffset
      have hEnd := rest.le
      rw [recordsFrom_of_record (by omega) hRead, if_neg hKind, hNext]
      dsimp only
      rw [ih hFree]
      exact (comp_map _ _ _).symm

/-- A header in the flash is read as the record that it is of. -/
theorem recordAt_of_slice {flash : Flash} (readable : flash.Readable) {offset : Nat}
    {kind length : UInt32} (hInside : offset + recordHeader ≤ flash.bytes.size)
    (hBytes : flash.slice offset recordHeader = toWire kind ++ toWire length) :
    recordAt flash offset = .ok ⟨kind, length, offset⟩ := by
  have hKind : (toWire kind).length = 4 := length_toWire kind
  rw [recordAt, readable.read hInside, hBytes]
  dsimp only
  rw [List.take_left' hKind, List.drop_left' hKind, ofWire_toWire, ofWire_toWire]

/-- In the blank part a look-up finds the free space, or nothing where no record fits. -/
theorem recordsFrom_blank {store : Store} {flash : Flash} (readable : flash.Readable)
    (hInside : store.stop ≤ flash.bytes.size) {offset : Nat}
    (blank : flash.Blank offset store.stop) :
    store.recordsFrom flash offset =
      .ok (if offset + recordHeader ≤ store.stop then [⟨unset, unset, offset⟩] else []) := by
  by_cases hFits : offset + recordHeader ≤ store.stop
  · have hBytes : flash.slice offset recordHeader = toWire unset ++ toWire unset :=
      blank.slice (Nat.le_refl _) hFits
    have hRecord := recordAt_of_slice readable (by omega) hBytes
    rw [recordsFrom_of_record hFits hRecord, if_pos rfl, if_pos hFits]
  · rw [Store.recordsFrom, if_neg hFits, if_neg hFits]

/-- A store holds some records and nothing else: they stand in a log, and what follows is blank. The
flash under it can be read, and takes what it does not refuse. -/
structure Holds (store : Store) (flash : Flash) (records : List Record) (free : Nat) : Prop where
  readable : flash.Readable
  faithful : flash.stuckWords = []
  inside : store.stop ≤ flash.bytes.size
  /-- Offsets are words. -/
  addressable : store.stop < UInt32.size
  log : Log flash store.start records free
  fits : free ≤ store.stop
  blank : flash.Blank free store.stop

/-- A region without a record holds nothing. -/
theorem holds_blank {store : Store} {flash : Flash} (sound : flash.Sound)
    (inside : store.stop ≤ flash.bytes.size) (addressable : store.stop < UInt32.size)
    (blank : flash.Blank store.start store.stop) : store.Holds flash [] store.start where
  readable := sound.readable
  faithful := sound.stuckWords
  inside := inside
  addressable := addressable
  log := .nil store.start
  fits := Nat.le_add_right ..
  blank := blank

/-- The region is a log followed by blank space. -/
def WellFormed (store : Store) (flash : Flash) : Prop :=
  ∃ records free, store.Holds flash records free

namespace Holds

variable {store : Store} {flash : Flash} {records : List Record} {free : Nat}

/-- A look-up goes through the records held, and then finds the free space if a record fits. -/
theorem records_eq (holds : store.Holds flash records free) :
    store.records flash =
      .ok (records ++
        if free + recordHeader ≤ store.stop then [⟨unset, unset, free⟩] else []) := by
  rw [Store.records, holds.log.recordsFrom holds.fits,
    recordsFrom_blank holds.readable holds.inside holds.blank]
  rfl

/-- The empty slot is found behind the last record, if a header fits there. -/
theorem find_unset (holds : store.Holds flash records free) :
    store.find flash unset =
      .ok (if free + recordHeader ≤ store.stop then some ⟨unset, unset, free⟩ else none) := by
  have hNone : records.filter (·.kind == unset) = [] := by
    simpa [List.filter_eq_nil_iff] using holds.log.kind_ne
  rw [find, holds.records_eq]
  change Except.ok ((records ++ _).filter (·.kind == unset)).getLast? = _
  rw [List.filter_append, hNone, List.nil_append]
  split <;> rfl

/-- The last record of a kind among those held is the one that is found. -/
theorem find_kind (holds : store.Holds flash records free) {kind : UInt32} (hKind : kind ≠ unset) :
    store.find flash kind = .ok (records.filter (·.kind == kind)).getLast? := by
  have hNone : (if free + recordHeader ≤ store.stop then [⟨unset, unset, free⟩]
      else [] : List Record).filter (·.kind == kind) = [] := by
    split <;> simp [Ne.symm hKind]
  rw [find, holds.records_eq]
  change Except.ok ((records ++ _).filter (·.kind == kind)).getLast? = _
  rw [List.filter_append, hNone, List.append_nil]

/-- What is done before the region does not reach the store. -/
theorem elsewhere (holds : store.Holds flash records free) {after : Flash} {start stop : Nat}
    (confined : Flash.Confined start stop flash after) (h : stop ≤ store.start) :
    store.Holds after records free where
  readable := confined.readable holds.readable
  faithful := confined.stuckWords.trans holds.faithful
  inside := confined.size.symm ▸ holds.inside
  addressable := holds.addressable
  log := holds.log.congr confined.faults.symm confined.size.symm fun _ hLow _ =>
    (confined.outside (.inr (Nat.le_trans h hLow))).symm
  fits := holds.fits
  blank := holds.blank.confined confined (.inr (Nat.le_trans h holds.log.le))

/-- What changes outside the store changes no word in it. -/
theorem getWord_elsewhere (holds : store.Holds flash records free) {after : Flash}
    {start stop : Nat} (confined : Flash.Confined start stop flash after) (h : stop ≤ store.start)
    {kind : UInt32} (hKind : kind ≠ unset) :
    store.getWord after kind = store.getWord flash kind := by
  have hFind := holds.find_kind hKind
  have hAfter := (holds.elsewhere confined h).find_kind hKind
  cases hLast : (records.filter (·.kind == kind)).getLast? with
  | none =>
      rw [hLast] at hFind hAfter
      simp only [getWord, hFind, hAfter, bind, Except.bind]
  | some record =>
      have hMem := (List.mem_filter.mp (List.mem_of_getLast? hLast)).1
      have hStart := holds.log.start_le record hMem
      have hRead : read after record 4 = read flash record 4 := by
        rw [read, read, confined.read (.inr (by simp only [Record.data]; omega))]
      rw [hLast] at hFind hAfter
      simp only [getWord, hFind, hAfter, bind, Except.bind, hRead]

end Holds

end Multidrop.Store
