import Multidrop.Proofs.Store.Write
import Multidrop.Proofs.Strict.Operation

/-!
The store in strict operations. Whatever the region holds, a look-up stays inside of it and ends
after as many headers as fit there, and nothing that is read or written reaches past a word.
-/

namespace Multidrop.Store

def strictStop (store : Store) : Strict Nat :=
  Strict.add store.start store.size

def strictRecordAt (flash : Flash) (offset : Nat) : Strict (Except StoreError Record) := do
  match flash.read offset recordHeader with
  | .error error => return .error (.flash error)
  | .ok bytes =>
    let kind := [← Strict.get bytes 0, ← Strict.get bytes 1, ← Strict.get bytes 2,
      ← Strict.get bytes 3]
    let length := [← Strict.get bytes 4, ← Strict.get bytes 5, ← Strict.get bytes 6,
      ← Strict.get bytes 7]
    return .ok ⟨ofWire kind, ofWire length, offset⟩

/-- Looks through the records from `offset` on, for so many rounds at most. -/
def strictFindFrom (store : Store) (flash : Flash) (kind : UInt32) :
    (rounds offset : Nat) → (found : Option Record) → Strict (Except StoreError (Option Record))
  | 0, _, _ => .error .endless
  | rounds + 1, offset, found => do
    let stop ← store.strictStop
    if offset + recordHeader < UInt32.size ∧ offset + recordHeader ≤ stop then
      match ← strictRecordAt flash offset with
      | .error error => return .error error
      | .ok record =>
        let found := if record.kind = kind then some record else found
        if record.kind = unset then return .ok found
        else
          match record.next? with
          | some next => strictFindFrom store flash kind rounds next found
          | none => return .ok found
    else return .ok found

def strictFind (store : Store) (flash : Flash) (kind : UInt32) :
    Strict (Except StoreError (Option Record)) :=
  store.strictFindFrom flash kind (store.size / recordHeader + 1) store.start none

/-- Reads the data of a record to the front of a buffer and says how much of it. -/
def strictRead (flash : Flash) (record : Record) (buffer : List UInt8) :
    Strict (Except StoreError (Nat × List UInt8)) := do
  let size := min buffer.length record.length.toNat
  let part ← Strict.slice buffer 0 size
  match flash.read (← Strict.add record.offset recordHeader) part.length with
  | .error error => return .error (.flash error)
  | .ok bytes => return .ok (size, ← Strict.copy buffer 0 size bytes)

def strictGetWord (store : Store) (flash : Flash) (kind : UInt32) :
    Strict (Except StoreError (Option UInt32)) := do
  match ← store.strictFind flash kind with
  | .error error => return .error error
  | .ok none => return .ok none
  | .ok (some record) =>
    match ← strictRead flash record [0, 0, 0, 0] with
    | .error error => return .error error
    | .ok (size, bytes) => return .ok (if size < 4 then none else some (ofWire bytes))

/-- Programs chunks from `offset` on, each filled up to a word. -/
def strictWriteChunks (flash : Flash) (offset : Nat) :
    List (List UInt8) → Strict (Except StoreError Unit × Flash)
  | [] => return (.ok (), flash)
  | chunk :: rest => do
    match flash.program offset (← strictPad chunk) with
    | (.error error, flash) => return (.error (.flash error), flash)
    | (.ok (), flash) => strictWriteChunks flash (← Strict.add offset 4) rest

/-- The header of a record, put together in a buffer. -/
def strictHeader (record : Record) : Strict (List UInt8) := do
  let header ← Strict.copy (List.replicate recordHeader 0) 0 4 (toWire record.kind)
  Strict.copy header 4 recordHeader (toWire record.length)

/-- Programs a record, its header first. -/
def strictProgram (flash : Flash) (record : Record) (data : List UInt8) :
    Strict (Except StoreError Unit × Flash) := do
  match flash.program record.offset (← strictHeader record) with
  | (.error error, flash) => return (.error (.flash error), flash)
  | (.ok (), flash) =>
    strictWriteChunks flash (← Strict.add record.offset recordHeader) (chunks data)

/-- Appends a record where a look-up found the free space. -/
def strictAppend (store : Store) (flash : Flash) (slot : Record) (kind : UInt32)
    (data : List UInt8) : Strict (Except StoreError Unit × Flash) := do
  if UInt32.size ≤ data.length then return (.error .noSpace, flash)
  else
    let record : Record := ⟨kind, UInt32.ofNat data.length, slot.offset⟩
    match record.next? with
    | none => return (.error .noSpace, flash)
    | some next =>
      let stop ← store.strictStop
      if stop < next then return (.error .noSpace, flash)
      else strictProgram flash record data

def strictWrite (store : Store) (flash : Flash) (kind : UInt32) (data : List UInt8) :
    Strict (Except StoreError Unit × Flash) := do
  if kind = unset then return (.error .reservedKind, flash)
  else
    match ← store.strictFind flash unset with
    | .error error => return (.error error, flash)
    | .ok none => return (.error .noSpace, flash)
    | .ok (some slot) => store.strictAppend flash slot kind data

def strictErase (store : Store) (flash : Flash) : Strict (Except StoreError Unit × Flash) := do
  let stop ← store.strictStop
  match flash.erase store.start stop with
  | (.ok (), flash) => return (.ok (), flash)
  | (.error error, flash) => return (.error (.flash error), flash)

theorem strictStop_eq {store : Store} (hStop : store.stop < UInt32.size) :
    store.strictStop = .ok store.stop := Strict.add_eq hStop

theorem strictRecordAt_eq (flash : Flash) (offset : Nat) :
    strictRecordAt flash offset = .ok (recordAt flash offset) := by
  rw [strictRecordAt, recordAt]
  cases hRead : flash.read offset recordHeader with
  | error error => rfl
  | ok bytes =>
      have hLength : bytes.length = 8 := Flash.length_of_read hRead
      rcases bytes with _ | ⟨b₀, _ | ⟨b₁, _ | ⟨b₂, _ | ⟨b₃, _ | ⟨b₄, _ | ⟨b₅, _ | ⟨b₆, _ | ⟨b₇,
        _ | ⟨b₈, rest⟩⟩⟩⟩⟩⟩⟩⟩⟩
      case cons.cons.cons.cons.cons.cons.cons.cons.nil => rfl
      all_goals simp at hLength

theorem getLast?_filter_cons (record : Record) (records : List Record) (kind : UInt32)
    (found : Option Record) :
    ((record :: records).filter (·.kind == kind)).getLast?.or found =
      (records.filter (·.kind == kind)).getLast?.or
        (if record.kind = kind then some record else found) := by
  by_cases hKind : record.kind = kind
  · rw [List.filter_cons_of_pos (by simp [hKind]), if_pos hKind, List.getLast?_cons]
    cases (records.filter (·.kind == kind)).getLast? <;> rfl
  · rw [List.filter_cons_of_neg (by simp [hKind]), if_neg hKind]

/-- A look-up that may take one round more than headers fit in what is left ends. -/
theorem strictFindFrom_eq {store : Store} (hStop : store.stop < UInt32.size) (flash : Flash)
    (kind : UInt32) {rounds offset : Nat}
    (hRounds : store.stop < offset + recordHeader * (rounds + 1)) (found : Option Record) :
    store.strictFindFrom flash kind (rounds + 1) offset found =
      .ok ((fun records => (records.filter (·.kind == kind)).getLast?.or found) <$>
        store.recordsFrom flash offset) := by
  induction rounds generalizing offset found with
  | zero =>
      have hEnd : ¬offset + recordHeader ≤ store.stop := by omega
      rw [strictFindFrom, strictStop_eq hStop, Strict.ok_bind, if_neg (by omega), recordsFrom,
        if_neg hEnd]
      rfl
  | succ rounds ih =>
      rw [strictFindFrom, strictStop_eq hStop, Strict.ok_bind]
      by_cases hFits : offset + recordHeader ≤ store.stop
      · rw [if_pos ⟨by omega, hFits⟩, strictRecordAt_eq, Strict.ok_bind]
        cases hRead : recordAt flash offset with
        | error error => rw [recordsFrom_of_error hFits hRead]; rfl
        | ok record =>
            have hLast := getLast?_filter_cons record [] kind found
            rw [recordsFrom_of_record hFits hRead]
            dsimp only
            by_cases hUnset : record.kind = unset
            · rw [if_pos hUnset, if_pos hUnset]
              exact congrArg (fun last => Except.ok (Except.ok last)) hLast.symm
            · rw [if_neg hUnset, if_neg hUnset]
              cases hNext : record.next? with
              | none => exact congrArg (fun last => Except.ok (Except.ok last)) hLast.symm
              | some next =>
                  have hOffset := Record.offset_lt_next hNext
                  rw [offset_recordAt hRead] at hOffset
                  dsimp only
                  rw [ih (by rw [Nat.mul_succ] at hRounds; omega)]
                  cases store.recordsFrom flash next with
                  | error error => rfl
                  | ok records =>
                      exact congrArg (fun last => Except.ok (Except.ok last))
                        (getLast?_filter_cons record records kind found).symm
      · rw [if_neg (by omega), recordsFrom, if_neg hFits]
        rfl

section Region

variable {store : Store} (hStop : store.stop < UInt32.size) (flash : Flash)
include hStop

/-- A search does not trap. -/
theorem strictFind_eq (kind : UInt32) :
    store.strictFind flash kind = .ok (store.find flash kind) := by
  have hRounds : store.stop < store.start + recordHeader * (store.size / recordHeader + 1) := by
    simp only [stop, recordHeader]
    omega
  rw [strictFind, strictFindFrom_eq hStop flash kind hRounds, find, records]
  cases store.recordsFrom flash store.start with
  | error error => rfl
  | ok records => exact congrArg (fun last => Except.ok (Except.ok last)) (Option.or_none ..)

theorem strictErase_eq : store.strictErase flash = .ok (store.erase flash) := by
  rw [strictErase, strictStop_eq hStop, Strict.ok_bind, erase]
  rcases flash.erase store.start store.stop with ⟨error | done, after⟩ <;> rfl

end Region

/-- What is read to the front of a buffer is what the record holds, cut to the buffer. -/
theorem strictRead_eq {record : Record} (h : record.data < UInt32.size) (flash : Flash)
    (buffer : List UInt8) :
    strictRead flash record buffer =
      .ok ((fun bytes => (bytes.length, bytes ++ buffer.drop bytes.length)) <$>
        read flash record buffer.length) := by
  have hSize : min buffer.length record.length.toNat ≤ buffer.length := Nat.min_le_left ..
  have hPart : ((buffer.take (min buffer.length record.length.toNat)).drop 0).length =
      min buffer.length record.length.toNat := by
    simp
  rw [strictRead, Strict.slice_eq (Nat.zero_le _) hSize, Strict.ok_bind, hPart,
    Strict.add_eq h, Strict.ok_bind, read, Record.data]
  cases hRead : flash.read (record.offset + recordHeader)
      (min buffer.length record.length.toNat) with
  | error error => rfl
  | ok bytes =>
      have hLength := Flash.length_of_read hRead
      dsimp only
      rw [Strict.copy_eq (Nat.zero_le _) hSize (by rw [hLength, Nat.sub_zero]), ← hLength]
      rfl

/-- As much is read as is asked for, or as the record holds. -/
theorem length_of_read {flash : Flash} {record : Record} {size : Nat} {bytes : List UInt8}
    (h : read flash record size = .ok bytes) : bytes.length = min size record.length.toNat := by
  rw [read] at h
  split at h <;> cases h
  next hRead => exact Flash.length_of_read hRead

theorem strictGetWord_eq {store : Store} (hStop : store.stop < UInt32.size) (flash : Flash)
    (kind : UInt32) : store.strictGetWord flash kind = .ok (store.getWord flash kind) := by
  rw [strictGetWord, strictFind_eq hStop, Strict.ok_bind, getWord]
  cases hFind : store.find flash kind with
  | error error => rfl
  | ok found =>
      cases found with
      | none => rfl
      | some record =>
          have hData : record.data < UInt32.size :=
            Nat.lt_of_le_of_lt (bounds_of_find hFind).2 hStop
          dsimp only
          rw [strictRead_eq hData, Strict.ok_bind]
          simp only [bind, Except.bind, List.length_cons, List.length_nil, Nat.zero_add]
          cases hRead : read flash record 4 with
          | error error => rfl
          | ok bytes =>
              have hLength : bytes.length ≤ 4 := length_of_read hRead ▸ Nat.min_le_left ..
              change Except.ok (Except.ok _) = Except.ok (Except.ok (Packed.read? UInt32 bytes))
              rw [Packed.read?, size_word]
              by_cases hShort : bytes.length < 4
              · rw [if_pos hShort, if_neg (Nat.not_le.mpr hShort)]
              · have hFour : bytes.length = 4 := by omega
                rw [if_neg hShort, if_pos (Nat.le_of_eq hFour.symm), hFour,
                  List.take_of_length_le hLength]
                exact congrArg (fun bytes => Except.ok (Except.ok (some (ofWire bytes))))
                  (List.append_nil bytes)

theorem strictWriteChunks_eq (flash : Flash) {offset : Nat} {chunks : List (List UInt8)}
    (hChunks : ∀ chunk ∈ chunks, chunk.length ≤ 4)
    (h : offset + 4 * chunks.length < UInt32.size) :
    strictWriteChunks flash offset chunks =
      .ok (match flash.programAll offset ((chunks.map ofWire).map (toWire : UInt32 → _)) with
        | (.ok (), flash) => (.ok (), flash)
        | (.error error, flash) => (.error (.flash error), flash)) := by
  induction chunks generalizing flash offset with
  | nil => rfl
  | cons chunk rest ih =>
      obtain ⟨hChunk, hRest⟩ := List.forall_mem_cons.mp hChunks
      rw [List.length_cons, Nat.mul_succ] at h
      rw [strictWriteChunks, strictPad_eq hChunk, Strict.ok_bind, List.map_cons, List.map_cons,
        Flash.programAll, length_toWire, size_word]
      rcases flash.program offset (toWire (ofWire chunk : UInt32)) with ⟨error | done, after⟩
      · rfl
      · dsimp only
        rw [Strict.add_eq (by omega), Strict.ok_bind, ih after hRest (by omega)]

theorem strictHeader_eq (record : Record) :
    strictHeader record = .ok (toWire record.kind ++ toWire record.length) := by
  have hKind : (toWire record.kind).length = 4 := length_toWire record.kind
  have hLength : (toWire record.length).length = 4 := length_toWire record.length
  rw [strictHeader, Strict.copy_eq (by decide) (by decide) hKind.symm, Strict.ok_bind,
    Strict.copy_eq (by decide) (by simp [hKind, recordHeader]) hLength.symm]
  simp [hKind, recordHeader, List.take_left', List.drop_eq_nil_of_le]

theorem strictProgram_eq (flash : Flash) {record : Record} {data : List UInt8}
    (h : record.offset + recordSpan data.length < UInt32.size) :
    strictProgram flash record data =
      .ok (match flash.programAll record.offset
          ((toWire record.kind ++ toWire record.length) :: (words data).map toWire) with
        | (.ok (), flash) => (.ok (), flash)
        | (.error error, flash) => (.error (.flash error), flash)) := by
  have hChunks : (chunks data).length = (data.length + 3) / 4 := by
    rw [← length_words, words_eq_chunks, List.length_map]
  have hEnd : record.offset + recordHeader + 4 * (chunks data).length < UInt32.size := by
    simp only [recordSpan] at h
    omega
  rw [strictProgram, strictHeader_eq, Strict.ok_bind, Flash.programAll, List.length_append,
    length_toWire, length_toWire, size_word]
  rcases flash.program record.offset (toWire record.kind ++ toWire record.length) with
    ⟨error | done, after⟩
  · rfl
  · dsimp only
    rw [Strict.add_eq (by omega), Strict.ok_bind,
      strictWriteChunks_eq after (fun chunk hMem => length_of_mem_chunks hMem) hEnd,
      words_eq_chunks]
    rfl

/-- A record is appended without a trap. -/
theorem strictAppend_eq {store : Store} (hStop : store.stop < UInt32.size) (flash : Flash)
    (slot : Record) (kind : UInt32) (data : List UInt8) :
    store.strictAppend flash slot kind data =
      .ok (match span? data.length with
        | none => (.error .noSpace, flash)
        | some span =>
          if store.stop < slot.offset + span then (.error .noSpace, flash)
          else
            match flash.programAll slot.offset
                ((toWire kind ++ toWire (UInt32.ofNat data.length)) :: (words data).map toWire) with
            | (.ok (), flash) => (.ok (), flash)
            | (.error error, flash) => (.error (.flash error), flash)) := by
  rw [strictAppend, span?_eq]
  by_cases hLength : UInt32.size ≤ data.length
  · have hSpan : ¬recordSpan data.length < UInt32.size := by
      simp only [recordSpan]
      omega
    rw [if_pos hLength, if_neg hSpan]
    rfl
  · have hWord : (UInt32.ofNat data.length).toNat = data.length := by
      rw [UInt32.toNat_ofNat', Nat.mod_eq_of_lt (by simpa using hLength)]
    rw [if_neg hLength]
    dsimp only
    rw [Record.next?_eq, hWord]
    by_cases hNext : slot.offset + recordSpan data.length < UInt32.size
    · rw [if_pos hNext, if_pos (by omega)]
      dsimp only
      rw [strictStop_eq hStop, Strict.ok_bind]
      by_cases hFull : store.stop < slot.offset + recordSpan data.length
      · rw [if_pos hFull, if_pos hFull]
        rfl
      · rw [if_neg hFull, if_neg hFull]
        exact strictProgram_eq flash hNext
    · rw [if_neg hNext]
      by_cases hSpan : recordSpan data.length < UInt32.size
      · rw [if_pos hSpan]
        dsimp only
        rw [if_pos (by omega)]
        rfl
      · rw [if_neg hSpan]
        rfl

/-- To write does not trap. -/
theorem strictWrite_eq {store : Store} (hStop : store.stop < UInt32.size) (flash : Flash)
    (kind : UInt32) (data : List UInt8) :
    store.strictWrite flash kind data = .ok (store.write flash kind data) := by
  rw [strictWrite, write]
  by_cases hKind : kind = unset
  · rw [if_pos hKind, if_pos hKind]
    rfl
  · rw [if_neg hKind, if_neg hKind, strictFind_eq hStop, Strict.ok_bind]
    rcases store.find flash unset with error | _ | slot
    · rfl
    · rfl
    · exact strictAppend_eq hStop flash slot kind data

def strictSetWord (store : Store) (flash : Flash) (kind value : UInt32) :
    Strict (Except StoreError Unit × Flash) :=
  store.strictWrite flash kind (toWire value)

def strictStoredAddress (flash : Flash) : Strict UInt8 := do
  match ← standard.strictGetWord flash addressKind with
  | .ok (some address) => return address.toUInt8
  | .ok none => return 0
  | .error _ => return 0

theorem stop_standard : standard.stop < UInt32.size := by decide

theorem strictSetWord_eq (flash : Flash) (kind value : UInt32) :
    standard.strictSetWord flash kind value = .ok (standard.setWord flash kind value) :=
  strictWrite_eq stop_standard flash kind (toWire value)

theorem strictStoredAddress_eq (flash : Flash) :
    strictStoredAddress flash = .ok (storedAddress flash) := by
  rw [strictStoredAddress, strictGetWord_eq stop_standard, Strict.ok_bind, storedAddress]
  rcases standard.getWord flash addressKind with error | _ | address <;> rfl

end Multidrop.Store
