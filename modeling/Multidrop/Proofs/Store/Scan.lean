import Mathlib.Data.List.Chain
import Multidrop.Proofs.Strict.Store

/-!
Looking through a region that may hold anything. A length is whatever the flash says, so the next
header may be said to stand behind the region or past all words, but never before the end of the
last one. A look-up therefore goes forward in whole words, stays inside, and ends; and what is
appended goes where it found the first record without a kind.
-/

namespace Multidrop.Store

/-- The record at an offset, by the bytes of its header. -/
def Record.ofHeader (offset : Nat) (bytes : List UInt8) : Record :=
  ⟨ofWire (bytes.take 4), ofWire (bytes.drop 4), offset⟩

/-- The bytes of a header make a record. -/
theorem recordAt_of_read {flash : Flash} {offset : Nat} {bytes : List UInt8}
    (h : flash.read offset recordHeader = .ok bytes) :
    recordAt flash offset = .ok (.ofHeader offset bytes) := by
  rw [recordAt, h]
  rfl

/-- Where the header after a record stands, whether or not a word can hold that. -/
def Record.following (record : Record) : Nat :=
  record.offset + recordSpan record.length.toNat

/-- The read of the header of a record. -/
def Record.reading (record : Record) : Reading :=
  ⟨record.offset, recordHeader⟩

/-- The records from an offset on, with the reads made for them. -/
def recordsTraced (store : Store) (flash : Flash) (offset : Nat) :
    Except FlashError (List Record) × List Reading :=
  if offset + recordHeader ≤ store.stop then
    let reading : Reading := ⟨offset, recordHeader⟩
    match reading.perform flash with
    | .error error => (.error error, [reading])
    | .ok bytes =>
      let record := Record.ofHeader offset bytes
      if record.kind = unset then (.ok [record], [reading])
      else
        match _next : record.next? with
        | none => (.ok [record], [reading])
        | some following =>
          let (records, readings) := recordsTraced store flash following
          ((record :: ·) <$> records, reading :: readings)
  else (.ok [], [])
termination_by store.stop - offset
decreasing_by
  have hNext : offset + recordHeader ≤ following := Record.offset_lt_next _next
  simp only [recordHeader] at *
  omega

/-- How a look-up goes on from an offset, what it gives, and the reads it makes. -/
inductive Scan (store : Store) (flash : Flash) :
    Nat → Except FlashError (List Record) → List Reading → Prop where
  | done {offset : Nat} (hEnd : ¬offset + recordHeader ≤ store.stop) :
      Scan store flash offset (.ok []) []
  | refused {offset : Nat} {error : FlashError} (hFits : offset + recordHeader ≤ store.stop)
      (hRead : flash.read offset recordHeader = .error error) :
      Scan store flash offset (.error error) [⟨offset, recordHeader⟩]
  | last {offset : Nat} {bytes : List UInt8} (hFits : offset + recordHeader ≤ store.stop)
      (hRead : flash.read offset recordHeader = .ok bytes)
      (hLast : (Record.ofHeader offset bytes).kind = unset ∨
        (Record.ofHeader offset bytes).next? = none) :
      Scan store flash offset (.ok [Record.ofHeader offset bytes]) [⟨offset, recordHeader⟩]
  | next {offset following : Nat} {bytes : List UInt8} {outcome : Except FlashError (List Record)}
      {readings : List Reading} (hFits : offset + recordHeader ≤ store.stop)
      (hRead : flash.read offset recordHeader = .ok bytes)
      (hKind : (Record.ofHeader offset bytes).kind ≠ unset)
      (hNext : (Record.ofHeader offset bytes).next? = some following)
      (rest : Scan store flash following outcome readings) :
      Scan store flash offset ((Record.ofHeader offset bytes :: ·) <$> outcome)
        (⟨offset, recordHeader⟩ :: readings)

/-- A header that can be read is one reading, and the search goes on behind its record. -/
theorem recordsTraced_of_ok {store : Store} {flash : Flash} {offset : Nat} {bytes : List UInt8}
    (hFits : offset + recordHeader ≤ store.stop)
    (hRead : flash.read offset recordHeader = .ok bytes) :
    store.recordsTraced flash offset =
      if (Record.ofHeader offset bytes).kind = unset then
        (.ok [.ofHeader offset bytes], [⟨offset, recordHeader⟩])
      else
        match (Record.ofHeader offset bytes).next? with
        | none => (.ok [.ofHeader offset bytes], [⟨offset, recordHeader⟩])
        | some following =>
          ((.ofHeader offset bytes :: ·) <$> (store.recordsTraced flash following).1,
            ⟨offset, recordHeader⟩ :: (store.recordsTraced flash following).2) := by
  rw [recordsTraced, if_pos hFits]
  simp only [Reading.perform, hRead]
  congr 1
  split
  case h_1 hNone => rw [hNone]
  case h_2 following hFollowing => rw [hFollowing]

/-- Every search is a scan. -/
theorem scan_recordsTraced (store : Store) (flash : Flash) (offset : Nat) :
    store.Scan flash offset (store.recordsTraced flash offset).1
      (store.recordsTraced flash offset).2 := by
  induction offset using recordsTraced.induct store flash with
  | case1 offset hFits reading error hRead =>
      rw [recordsTraced, if_pos hFits]
      simp only [hRead, reading]
      exact .refused hFits hRead
  | case2 offset hFits reading bytes hRead record hUnset =>
      rw [recordsTraced_of_ok hFits hRead, if_pos hUnset]
      exact .last hFits hRead (.inl hUnset)
  | case3 offset hFits reading bytes hRead record hKind hNone =>
      rw [recordsTraced_of_ok hFits hRead, if_neg hKind, hNone]
      exact .last hFits hRead (.inr hNone)
  | case4 offset hFits reading bytes hRead record hKind following hNext records readings hRest ih =>
      rw [recordsTraced_of_ok hFits hRead, if_neg hKind, hNext]
      exact .next hFits hRead hKind hNext ih
  | case5 offset hEnd =>
      rw [recordsTraced, if_neg hEnd]
      exact .done hEnd

/-- Reads of headers that go forward through a region by whole words. -/
structure Sweep (start stop : Nat) (readings : List Reading) : Prop where
  header : ∀ reading ∈ readings, reading.length = recordHeader
  inside : ∀ reading ∈ readings, start ≤ reading.offset ∧ reading.offset + reading.length ≤ stop
  aligned : ∀ reading ∈ readings, reading.offset % Flash.wordSize = start % Flash.wordSize
  forward : readings.Pairwise fun first second => first.offset < second.offset
  few : readings.length ≤ (stop - start) / recordHeader

namespace Sweep

/-- Nothing is read in an empty sweep. -/
theorem nil (start stop : Nat) : Sweep start stop [] where
  header := by simp
  inside := by simp
  aligned := by simp
  forward := .nil
  few := Nat.zero_le _

/-- A sweep goes on behind what it has read, on whole words. -/
theorem cons {start next stop : Nat} {readings : List Reading}
    (hFits : start + recordHeader ≤ stop) (hNext : start + recordHeader ≤ next)
    (hWord : next % Flash.wordSize = start % Flash.wordSize) (rest : Sweep next stop readings) :
    Sweep start stop (⟨start, recordHeader⟩ :: readings) where
  header := List.forall_mem_cons.mpr ⟨rfl, rest.header⟩
  inside := by
    refine List.forall_mem_cons.mpr ⟨⟨Nat.le_refl _, hFits⟩, fun reading hMem => ?_⟩
    have hInside := rest.inside reading hMem
    omega
  aligned := List.forall_mem_cons.mpr
    ⟨rfl, fun reading hMem => (rest.aligned reading hMem).trans hWord⟩
  forward := by
    refine .cons (fun reading hMem => ?_) rest.forward
    have hInside := rest.inside reading hMem
    simp only [recordHeader] at hNext ⊢
    omega
  few := by
    have hFew := rest.few
    rw [List.length_cons]
    simp only [recordHeader] at *
    omega

end Sweep

/-- What a look-up from `start` on goes through, where all reads succeed. -/
structure Visit (store : Store) (flash : Flash) (start : Nat) (visited : List Record) : Prop where
  /-- Each of them says what stands at its offset, inside the region. -/
  header : ∀ record ∈ visited, record.offset + recordHeader ≤ store.stop ∧
    flash.slice record.offset recordHeader = toWire record.kind ++ toWire record.length
  first : ∀ record ∈ visited.head?, record.offset = start
  follows : visited.IsChain fun record next =>
    record.kind ≠ unset ∧ next.offset = record.following
  /-- It ends with the first record without a kind, or with one after which no offset in a word
  follows, or where no header fits any more. -/
  ends : match visited.getLast? with
    | none => store.stop < start + recordHeader
    | some last =>
      last.kind = unset ∨ UInt32.size ≤ last.following ∨
        store.stop < last.following + recordHeader

/-- Where no header fits there is nothing to visit. -/
theorem Visit.nil {store : Store} {start : Nat} (hEnd : ¬start + recordHeader ≤ store.stop)
    (flash : Flash) : store.Visit flash start [] where
  header := by simp
  first := by simp
  follows := .nil
  ends := Nat.lt_of_not_le hEnd

/-- What is gone through after a record is gone through from that record on. -/
theorem Visit.cons {store : Store} {flash : Flash} {record : Record} {visited : List Record}
    (hFits : record.offset + recordHeader ≤ store.stop)
    (hHeader : flash.slice record.offset recordHeader = toWire record.kind ++ toWire record.length)
    (hKind : record.kind ≠ unset) (rest : store.Visit flash record.following visited) :
    store.Visit flash record.offset (record :: visited) where
  header := List.forall_mem_cons.mpr ⟨⟨hFits, hHeader⟩, rest.header⟩
  first := by simp
  follows := List.isChain_cons.mpr
    ⟨fun next hNext => ⟨hKind, rest.first next hNext⟩, rest.follows⟩
  ends := by
    have hEnds := rest.ends
    cases visited with
    | nil => exact .inr (.inr hEnds)
    | cons next visited => rwa [List.getLast?_cons_cons]

/-- A look-up that does not go on after a record goes through that record alone. -/
theorem Visit.single {store : Store} {flash : Flash} {record : Record}
    (hFits : record.offset + recordHeader ≤ store.stop)
    (hHeader : flash.slice record.offset recordHeader = toWire record.kind ++ toWire record.length)
    (hLast : record.kind = unset ∨ record.next? = none) :
    store.Visit flash record.offset [record] where
  header := List.forall_mem_singleton.mpr ⟨hFits, hHeader⟩
  first := by simp
  follows := .singleton record
  ends := by
    refine hLast.imp_right fun hNone => .inl ?_
    rw [Record.next?_eq] at hNone
    split at hNone
    · cases hNone
    · next hLarge => exact Nat.le_of_not_lt hLarge

/-- A record has the kind and the length that stand in its header. -/
theorem ofHeader_of_read {flash : Flash} {offset : Nat} {bytes : List UInt8}
    (h : flash.read offset recordHeader = .ok bytes) :
    flash.slice offset recordHeader = toWire (Record.ofHeader offset bytes).kind ++
      toWire (Record.ofHeader offset bytes).length := by
  have hLength := Flash.length_of_read h
  have hKind : (bytes.take 4).length = 4 := by simp [hLength, recordHeader]
  have hRest : (bytes.drop 4).length = 4 := by simp [hLength, recordHeader]
  rw [(Flash.slice_of_read h).2, Record.ofHeader, toWire_ofWire_word _ hKind,
    toWire_ofWire_word _ hRest, List.take_append_drop]

namespace Scan

variable {store : Store} {flash : Flash} {offset : Nat} {outcome : Except FlashError (List Record)}
  {readings : List Reading}

/-- Noting the reads changes nothing. -/
theorem recordsFrom (scan : store.Scan flash offset outcome readings) :
    store.recordsFrom flash offset = outcome.mapError .flash := by
  induction scan with
  | done hEnd => rw [Store.recordsFrom, if_neg hEnd]; rfl
  | refused hFits hRead =>
      refine recordsFrom_of_error hFits ?_
      rw [recordAt, hRead]
  | last hFits hRead hLast =>
      rw [recordsFrom_of_record hFits (recordAt_of_read hRead)]
      split
      · rfl
      · next hKind =>
          rw [hLast.resolve_left hKind]
          rfl
  | @next offset following bytes outcome readings hFits hRead hKind hNext rest ih =>
      rw [recordsFrom_of_record hFits (recordAt_of_read hRead), if_neg hKind, hNext]
      dsimp only
      rw [ih]
      cases outcome <;> rfl

/-- The reads succeed, or the last of them is refused. -/
theorem explain (scan : store.Scan flash offset outcome readings) :
    Reading.Explain flash readings outcome := by
  induction scan with
  | done hEnd => simp [Reading.Explain, Reading.AllSucceed]
  | refused hFits hRead => exact Reading.lastFails_single hRead
  | last hFits hRead hLast =>
      exact List.forall_mem_singleton.mpr ⟨_, hRead⟩
  | @next offset following bytes outcome readings hFits hRead hKind hNext rest ih =>
      have hAll : Reading.Explain flash (⟨offset, recordHeader⟩ :: readings) outcome :=
        ih.cons hRead
      cases outcome <;> exact hAll

/-- A scan reads from the front to the back, within the store. -/
theorem sweep (scan : store.Scan flash offset outcome readings) :
    Sweep offset store.stop readings := by
  have hOne (offset : Nat) (hFits : offset + recordHeader ≤ store.stop) :
      Sweep offset store.stop [⟨offset, recordHeader⟩] :=
    .cons hFits (Nat.le_refl _) (Nat.add_mul_mod_self_right offset 2 4) (.nil ..)
  induction scan with
  | done hEnd => exact .nil ..
  | refused hFits hRead => exact hOne _ hFits
  | last hFits hRead hLast => exact hOne _ hFits
  | next hFits hRead hKind hNext rest ih =>
      -- whatever the length says, it is rounded up to whole words before it is added
      refine .cons hFits (Record.offset_lt_next hNext) ?_ ih
      rw [Record.next?_eq] at hNext
      split at hNext <;> cases hNext
      simp only [Record.ofHeader, recordSpan, recordHeader, Flash.wordSize]
      omega

/-- A scan that succeeds visits the records whose headers it read. -/
theorem visit (scan : store.Scan flash offset outcome readings) {visited : List Record}
    (h : outcome = .ok visited) :
    store.Visit flash offset visited ∧ readings = visited.map Record.reading := by
  induction scan generalizing visited with
  | done hEnd =>
      cases h
      exact ⟨.nil hEnd flash, rfl⟩
  | refused hFits hRead => cases h
  | last hFits hRead hLast =>
      cases h
      exact ⟨.single hFits (ofHeader_of_read hRead) hLast, rfl⟩
  | @next offset following bytes outcome readings hFits hRead hKind hNext rest ih =>
      cases outcome with
      | error error => cases h
      | ok later =>
          cases h
          obtain ⟨hVisit, rfl⟩ := ih rfl
          have hFollowing : following = (Record.ofHeader offset bytes).following := by
            rw [Record.next?_eq] at hNext
            split at hNext <;> cases hNext
            rfl
          rw [hFollowing] at hVisit
          exact ⟨.cons hFits (ofHeader_of_read hRead) hKind hVisit, rfl⟩

end Scan

/-- The reads made for a look-up, whatever is looked for. -/
def readings (store : Store) (flash : Flash) : List Reading :=
  (store.recordsTraced flash store.start).2

/-- The record that is found is the last of its kind that was visited. -/
theorem find_of_traced {store : Store} {flash : Flash} {outcome : Except FlashError (List Record)}
    (h : (store.recordsTraced flash store.start).1 = outcome) (kind : UInt32) :
    store.find flash kind =
      (fun visited => (visited.filter (·.kind == kind)).getLast?) <$> outcome.mapError .flash := by
  rw [find, records, (store.scan_recordsTraced flash store.start).recordsFrom, h]

namespace Visit

variable {store : Store} {flash : Flash} {start : Nat} {visited : List Record}

/-- Nothing is gone through after a record without a kind, so that the last such record is also the
first. -/
theorem getLast?_unset (visit : store.Visit flash start visited) :
    (visited.filter (·.kind == unset)).getLast? = visited.find? (·.kind == unset) := by
  have hFollows := visit.follows
  clear visit
  induction visited with
  | nil => rfl
  | cons record rest ih =>
      rw [List.isChain_cons] at hFollows
      cases rest with
      | nil => cases hKind : record.kind == unset <;> simp [hKind]
      | cons next rest =>
          have hKind := (hFollows.1 next rfl).1
          rw [List.filter_cons_of_neg (by simpa using hKind),
            List.find?_cons_of_neg (by simpa using hKind), ih hFollows.2]

end Visit

/-- What is appended goes where the free space was found, if it fits there. -/
theorem write_of_find {store : Store} {flash : Flash} {slot : Record} {kind : UInt32}
    (hFaults : flash.faults = []) (inside : store.stop ≤ flash.bytes.size)
    (addressable : store.stop < UInt32.size) (aligned : slot.offset % Flash.wordSize = 0)
    (hKind : kind ≠ unset) (hFind : store.find flash unset = .ok (some slot))
    (data : List UInt8) :
    store.write flash kind data =
      if store.stop < slot.offset + recordSpan data.length then (.error .noSpace, flash)
      else (.ok (), flash.replay (Flash.programs slot.offset (pieces kind data))) := by
  rw [write, if_neg hKind, hFind]
  dsimp only
  rw [span?_eq]
  by_cases hSpan : recordSpan data.length < UInt32.size
  · rw [if_pos hSpan]
    dsimp only
    split
    · rfl
    · next hFits =>
        have hInside : slot.offset + (pieces kind data).flatten.length ≤ flash.bytes.size := by
          rw [length_pieces]
          omega
        have hAll :=
          Flash.programAll_of_no_faults hFaults aligned (aligned_pieces kind data) hInside
        rw [pieces] at hAll
        rw [hAll]
        rfl
  · rw [if_neg hSpan, if_pos (by omega)]

/-- What is appended after a look-up is refused as a whole, or is programmed into what is left of
the region from the first record without a kind on. -/
theorem Visit.write {store : Store} {flash : Flash} {visited : List Record}
    (visit : store.Visit flash store.start visited)
    (sweep : Sweep store.start store.stop (visited.map Record.reading))
    (inside : store.stop ≤ flash.bytes.size)
    (addressable : store.stop < UInt32.size) (aligned : store.start % Flash.wordSize = 0)
    (hFaults : flash.faults = [])
    (hFind : store.find flash unset = .ok (visited.filter (·.kind == unset)).getLast?)
    (kind : UInt32) (data : List UInt8) :
    ((store.write flash kind data).1 = .error .noSpace ∨
        (store.write flash kind data).1 = .error .reservedKind) ∧
        (store.write flash kind data).2 = flash ∨
      (store.write flash kind data).1 = .ok () ∧
        ∃ slot, visited.find? (·.kind == unset) = some slot ∧
          Flash.Confined slot.offset store.stop flash (store.write flash kind data).2 := by
  rw [visit.getLast?_unset] at hFind
  by_cases hKind : kind = unset
  · rw [Store.write, if_pos hKind]
    exact .inl ⟨.inr rfl, rfl⟩
  · cases hSlot : visited.find? (·.kind == unset) with
    | none =>
        rw [hSlot] at hFind
        rw [Store.write, if_neg hKind, hFind]
        exact .inl ⟨.inl rfl, rfl⟩
    | some slot =>
        have hMem : slot ∈ visited := List.mem_of_find?_eq_some hSlot
        have hOffset := sweep.aligned slot.reading (List.mem_map_of_mem hMem)
        rw [hSlot] at hFind
        rw [write_of_find hFaults inside addressable (hOffset.trans aligned) hKind hFind]
        split
        · exact .inl ⟨.inl rfl, rfl⟩
        · next hFits =>
            have hConfined := Flash.Confined.of_programs
              (List.prefix_refl (Flash.programs slot.offset (pieces kind data))) flash
            rw [length_pieces] at hConfined
            exact .inr ⟨rfl, slot, rfl, hConfined.mono (Nat.le_refl _) (Nat.le_of_not_lt hFits)⟩

/-- Whatever the region holds, a look-up reads headers inside of it and further and further on, at
most as many as fit, and counts past no word. Reads that succeed lead it to what it is looking for
among the headers gone through, and one that is refused ends it. On a flash without faults what is
appended is refused as a whole, or lies behind the first header without a kind. -/
theorem corrupt_scan_safe (store : Store) (flash : Flash) (inside : store.stop ≤ flash.bytes.size)
    (addressable : store.stop < UInt32.size) :
    Sweep store.start store.stop (store.readings flash) ∧
      (flash.Readable → Reading.AllSucceed flash (store.readings flash)) ∧
      (∀ error, Reading.LastFails flash (store.readings flash) error →
        ∀ kind, store.strictFind flash kind = .ok (.error (.flash error))) ∧
      (Reading.AllSucceed flash (store.readings flash) →
        ∃ visited, store.Visit flash store.start visited ∧
          store.readings flash = visited.map Record.reading ∧
          (∀ kind, store.strictFind flash kind =
            .ok (.ok (visited.filter (·.kind == kind)).getLast?)) ∧
          (store.start % Flash.wordSize = 0 → flash.faults = [] →
            ∀ kind data, ∃ result after,
              store.strictWrite flash kind data = .ok (result, after) ∧
                ((result = .error .noSpace ∨ result = .error .reservedKind) ∧ after = flash ∨
                  result = .ok () ∧ ∃ slot, visited.find? (·.kind == unset) = some slot ∧
                    Flash.Confined slot.offset store.stop flash after))) := by
  have scan := store.scan_recordsTraced flash store.start
  have sweep : Sweep store.start store.stop (store.readings flash) := scan.sweep
  have hExplain := scan.explain
  refine ⟨sweep, fun readable reading hMem => ?_, fun error fails kind => ?_, fun succeed => ?_⟩
  · have hEnd := (sweep.inside reading hMem).2
    exact ⟨_, readable.read (Nat.le_trans hEnd inside)⟩
  · rw [strictFind_eq addressable]
    cases hOutcome : (store.recordsTraced flash store.start).1 with
    | ok visited =>
        rw [hOutcome] at hExplain
        exact absurd hExplain fails.not_allSucceed
    | error found =>
        rw [hOutcome] at hExplain
        rw [find_of_traced hOutcome, fails.unique hExplain]
        rfl
  · cases hOutcome : (store.recordsTraced flash store.start).1 with
    | error found =>
        rw [hOutcome] at hExplain
        exact absurd succeed hExplain.not_allSucceed
    | ok visited =>
        obtain ⟨visit, hReadings⟩ := scan.visit hOutcome
        have hFind (kind : UInt32) : store.find flash kind =
            .ok (visited.filter (·.kind == kind)).getLast? := find_of_traced hOutcome kind
        refine ⟨visited, visit, hReadings, fun kind => ?_, fun aligned hFaults kind data => ?_⟩
        · rw [strictFind_eq addressable, hFind]
        · exact ⟨_, _, strictWrite_eq addressable flash kind data,
            visit.write (hReadings ▸ sweep) inside addressable aligned hFaults (hFind unset) kind
              data⟩

/-- A region in which a record that says it has five bytes is followed by a header that has a length
but no kind. -/
def scarred : Flash where
  bytes := #[0, 0, 0, 0, 1, 0, 0, 0, 5, 0, 0, 0, 17, 17, 17, 17, 17, 17, 17, 17, 0xFF, 0xFF, 0xFF,
    0xFF, 7, 0, 0, 0, 17, 17, 17, 17, 17, 17, 17, 17, 17, 17, 17, 17]

/-- The record is found, and what is appended goes where the header without a kind stood. -/
theorem corrupt_scan_safe_scarred :
    (⟨4, 36⟩ : Store).stop ≤ scarred.bytes.size ∧ (⟨4, 36⟩ : Store).stop < UInt32.size ∧
      scarred.Readable ∧ (4 : Nat) % Flash.wordSize = 0 ∧ scarred.faults = [] ∧
      (⟨4, 36⟩ : Store).strictFind scarred 1 = .ok (.ok (some ⟨1, 5, 4⟩)) ∧
      ∃ after, (⟨4, 36⟩ : Store).strictWrite scarred 2 [9] = .ok (.ok (), after) ∧
        Flash.Confined 20 40 scarred after := by
  have inside : (⟨4, 36⟩ : Store).stop ≤ scarred.bytes.size := by decide
  have addressable : (⟨4, 36⟩ : Store).stop < UInt32.size := by decide
  have readable : scarred.Readable := by simp [Flash.Readable, scarred]
  obtain ⟨_, hSucceed, _, hVisited⟩ := corrupt_scan_safe ⟨4, 36⟩ scarred inside addressable
  obtain ⟨visited, visit, _, hFind, hWrite⟩ := hVisited (hSucceed readable)
  have hFirst : (⟨4, 36⟩ : Store).strictFind scarred 1 = .ok (.ok (some ⟨1, 5, 4⟩)) := rfl
  have hFree : (⟨4, 36⟩ : Store).strictFind scarred unset = .ok (.ok (some ⟨unset, 7, 20⟩)) := rfl
  obtain ⟨expected, hExpected⟩ : ∃ expected,
      (⟨4, 36⟩ : Store).strictWrite scarred 2 [9] = .ok (.ok (), expected) := ⟨_, rfl⟩
  obtain ⟨result, after, hResult, hCases⟩ := hWrite (by decide) rfl 2 [9]
  rw [hExpected] at hResult
  cases hResult
  rw [hFind, visit.getLast?_unset] at hFree
  obtain ⟨h | h, _⟩ | ⟨_, slot, hSlot, hConfined⟩ := hCases
  · cases h
  · cases h
  · rw [hSlot] at hFree
    cases hFree
    exact ⟨inside, addressable, readable, by decide, rfl, hFirst, expected, hExpected, hConfined⟩

end Multidrop.Store
