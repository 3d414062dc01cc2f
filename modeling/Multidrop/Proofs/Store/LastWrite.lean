import Multidrop.Proofs.Store.Write

/-!
A store over its whole life. On a flash without defects, and starting blank, what is found is what
was written last since the region was erased, up to the last bytes that the region has.
-/

namespace Multidrop.Store

/-- What a record is about. -/
structure Entry where
  kind : UInt32
  data : List UInt8
  deriving DecidableEq

/-- How many bytes an entry takes in the store. -/
def Entry.span (entry : Entry) : Nat :=
  recordSpan entry.data.length

/-- What a record says in a flash that holds it. -/
def Record.entry (flash : Flash) (record : Record) : Entry :=
  ⟨record.kind, flash.slice record.data record.length.toNat⟩

/-- The last entry of a kind. -/
def latest? (entries : List Entry) (kind : UInt32) : Option Entry :=
  (entries.filter (·.kind == kind)).getLast?

/-- What can be done to a store. -/
inductive Operation where
  | write (kind : UInt32) (data : List UInt8)
  | setWord (kind value : UInt32)
  | erase

namespace Operation

def perform (store : Store) (flash : Flash) : Operation → Except StoreError Unit × Flash
  | write kind data => store.write flash kind data
  | setWord kind value => store.setWord flash kind value
  | erase => store.erase flash

/-- What there is to remember once the operation was carried out, after some entries. -/
def remembered (entries : List Entry) : Operation → List Entry
  | write kind data => entries ++ [⟨kind, data⟩]
  | setWord kind value => entries ++ [⟨kind, toWire value⟩]
  | erase => []

end Operation

/-- A flash, and the entries that were written to its store and not erased since. -/
structure Life where
  flash : Flash
  entries : List Entry

namespace Life

/-- An operation that ends in an error leaves nothing to remember. -/
def step (store : Store) (life : Life) (operation : Operation) : Life :=
  match operation.perform store life.flash with
  | (.ok (), flash) => ⟨flash, operation.remembered life.entries⟩
  | (.error _, flash) => ⟨flash, life.entries⟩

def run (store : Store) (life : Life) (operations : List Operation) : Life :=
  operations.foldl (step store) life

/-- An operation that succeeds is remembered. -/
theorem entries_step {store : Store} {life : Life} {operation : Operation}
    (h : (operation.perform store life.flash).1 = .ok ()) :
    (life.step store operation).entries = operation.remembered life.entries := by
  rw [step]
  split
  · rfl
  · next hError =>
      rw [hError] at h
      cases h

/-- Where the free space starts when the store holds the entries, one after the other. -/
def free (store : Store) (life : Life) : Nat :=
  life.entries.foldl (fun offset entry => offset + entry.span) store.start

end Life

/-- The data of a record lies before the offset after the log it stands in. -/
theorem Log.data_le {flash : Flash} {start free : Nat} {records : List Record}
    (log : Log flash start records free) :
    ∀ record ∈ records, record.data + record.length.toNat ≤ free := by
  induction log with
  | nil offset => simp
  | @cons offset next free record records hRead hKind hNext rest ih =>
      have hEnd := rest.le
      refine List.forall_mem_cons.mpr ⟨?_, ih⟩
      rw [Record.next?_eq] at hNext
      split at hNext <;> cases hNext
      simp only [recordSpan] at hEnd
      simp only [Record.data]
      omega

/-- A log ends after as much as its records take. -/
theorem Log.foldl_span {flash : Flash} {start free : Nat} {records : List Record}
    (log : Log flash start records free) {span : Record → Nat}
    (h : ∀ record ∈ records, span record = recordSpan record.length.toNat) :
    records.foldl (fun offset record => offset + span record) start = free := by
  induction log with
  | nil offset => rfl
  | @cons offset next free record records hRead hKind hNext rest ih =>
      obtain ⟨hRecord, hRest⟩ := List.forall_mem_cons.mp h
      rw [Record.next?_eq, offset_recordAt hRead] at hNext
      split at hNext <;> cases hNext
      rw [List.foldl_cons, hRecord]
      exact ih hRest

/-- What records say does not depend on what follows them. -/
theorem Log.entries_confined {before after : Flash} {start free stop : Nat} {records : List Record}
    (log : Log before start records free) (confined : Flash.Confined free stop before after) :
    records.map (·.entry after) = records.map (·.entry before) := by
  refine List.map_congr_left fun record hMem => ?_
  rw [Record.entry, confined.slice (.inl (log.data_le record hMem)), Record.entry]

/-- The free space starts behind the last record. -/
theorem Holds.free_eq {store : Store} {life : Life} {records : List Record} {free : Nat}
    (holds : store.Holds life.flash records free)
    (hEntries : records.map (·.entry life.flash) = life.entries) :
    life.free store = free := by
  rw [Life.free, ← hEntries, List.foldl_map]
  apply holds.log.foldl_span
  intro record hMem
  have hData := holds.log.data_le record hMem
  have hFits := holds.fits
  have hInside := holds.inside
  have hLength : record.data + record.length.toNat ≤ life.flash.bytes.size := by omega
  rw [Entry.span, Record.entry, life.flash.length_slice hLength]

/-- The store of a flash without defects holds records that say just this. -/
structure Keeps (store : Store) (life : Life) : Prop where
  sound : life.flash.Sound
  aligned : store.start % Flash.wordSize = 0
  held : ∃ records free, store.Holds life.flash records free ∧
    records.map (·.entry life.flash) = life.entries

namespace Keeps

variable {store : Store} {life : Life}

/-- What is appended is refused and nothing is done, or it is kept after what was kept before. -/
theorem write_cases (keeps : store.Keeps life) (kind : UInt32) (data : List UInt8) :
    (kind = unset ∧ store.write life.flash kind data = (.error .reservedKind, life.flash)) ∨
    (kind ≠ unset ∧ store.stop < life.free store + recordSpan data.length ∧
      store.write life.flash kind data = (.error .noSpace, life.flash)) ∨
    (kind ≠ unset ∧ life.free store + recordSpan data.length ≤ store.stop ∧
      ∃ after, store.write life.flash kind data = (.ok (), after) ∧
        store.Keeps ⟨after, life.entries ++ [⟨kind, data⟩]⟩) := by
  obtain ⟨records, free, holds, hEntries⟩ := keeps.held
  rw [holds.free_eq hEntries]
  by_cases hKind : kind = unset
  · exact .inl ⟨hKind, by rw [write, if_pos hKind]⟩
  · refine .inr ?_
    by_cases hFull : store.stop < free + recordSpan data.length
    · exact .inl ⟨hKind, hFull, by rw [holds.write_eq hKind, if_pos hFull]⟩
    · have hFits := Nat.le_of_not_lt hFull
      obtain ⟨after, hWrite, confined, hHolds, hData⟩ :=
        holds.write_of_fits keeps.sound keeps.aligned hKind hFits
      have hLength := toNat_length data (by have := holds.addressable; omega)
      have hNew : (⟨kind, UInt32.ofNat data.length, free⟩ : Record).entry after = ⟨kind, data⟩ := by
        rw [Record.entry, Record.data, hLength, hData]
      refine .inr ⟨hKind, hFits, after, hWrite, confined.sound keeps.sound, keeps.aligned,
        _, _, hHolds, ?_⟩
      rw [List.map_append, List.map_singleton, hNew, holds.log.entries_confined confined, hEntries]

/-- A write keeps the store in step with what is remembered, whether it succeeds or not. -/
theorem written (keeps : store.Keeps life) (kind : UInt32) (data : List UInt8) :
    store.Keeps
      (match store.write life.flash kind data with
      | (.ok (), flash) => ⟨flash, life.entries ++ [⟨kind, data⟩]⟩
      | (.error _, flash) => ⟨flash, life.entries⟩) := by
  rcases keeps.write_cases kind data with ⟨_, hWrite⟩ | ⟨_, _, hWrite⟩ | ⟨_, _, after, hWrite, h⟩
  · rw [hWrite]
    exact keeps
  · rw [hWrite]
    exact keeps
  · rw [hWrite]
    exact h

/-- What is kept after an operation is what there is to remember. -/
theorem step (keeps : store.Keeps life) (operation : Operation) :
    store.Keeps (life.step store operation) := by
  cases operation with
  | write kind data => exact keeps.written kind data
  | setWord kind value => exact keeps.written kind (toWire value)
  | erase =>
      obtain ⟨records, free, holds, _⟩ := keeps.held
      have hErase := erase_of_sound keeps.sound holds.inside
      have confined := store.erase_confined life.flash
      rw [Life.step, Operation.perform]
      split at hErase
      · obtain ⟨hOk, blank⟩ := hErase
        cases hResult : store.erase life.flash with
        | mk outcome after =>
            rw [hResult] at hOk blank confined
            dsimp only at hOk blank confined
            subst hOk
            have sound := confined.sound keeps.sound
            exact ⟨sound, keeps.aligned, [], store.start,
              holds_blank sound (confined.size ▸ holds.inside) holds.addressable blank, rfl⟩
      · obtain ⟨error, hResult⟩ := hErase
        rw [hResult]
        exact keeps

/-- So do all operations. -/
theorem run (keeps : store.Keeps life) (operations : List Operation) :
    store.Keeps (life.run store operations) := by
  induction operations generalizing life with
  | nil => exact keeps
  | cons operation rest ih => exact ih (keeps.step operation)

/-- The last entry of a kind is the one that is found and read. -/
theorem find_latest (keeps : store.Keeps life) {kind : UInt32} (hKind : kind ≠ unset) :
    match latest? life.entries kind with
    | none => store.find life.flash kind = .ok none
    | some entry => ∃ record, store.find life.flash kind = .ok (some record) ∧
        record.kind = kind ∧ record.length.toNat = entry.data.length ∧
          ∀ size, read life.flash record size = .ok (entry.data.take size) := by
  obtain ⟨records, free, holds, hEntries⟩ := keeps.held
  have hFind := holds.find_kind hKind
  have hLatest : latest? life.entries kind =
      (records.filter (·.kind == kind)).getLast?.map (·.entry life.flash) := by
    rw [latest?, ← hEntries, List.filter_map, List.getLast?_map]
    rfl
  rw [hLatest]
  cases hLast : (records.filter (·.kind == kind)).getLast? with
  | none => exact hFind.trans (congrArg _ hLast)
  | some record =>
      have hMem := List.mem_of_getLast? hLast
      obtain ⟨hRecord, hSame⟩ := List.mem_filter.mp hMem
      have hData := holds.log.data_le record hRecord
      have hInside := Nat.le_trans holds.fits holds.inside
      have hLength := life.flash.length_slice (Nat.le_trans hData hInside)
      have hRead (size : Nat) : read life.flash record size =
          .ok ((record.entry life.flash).data.take size) := by
        have hPart : ((record.entry life.flash).data.drop 0).take (min size record.length.toNat) =
            life.flash.slice (record.data + 0) (min size record.length.toNat) :=
          life.flash.take_drop_slice (by omega)
        rw [read, holds.readable.read (by omega)]
        dsimp only
        rw [List.take_eq_take_min, Record.entry, hLength]
        exact congrArg _ hPart.symm
      exact ⟨record, hFind.trans (congrArg _ hLast), eq_of_beq hSame, hLength.symm, hRead⟩

/-- The word of the last entry of a kind is its first four bytes, if it has so many. -/
theorem getWord_latest (keeps : store.Keeps life) {kind : UInt32} (hKind : kind ≠ unset) :
    store.getWord life.flash kind = .ok ((latest? life.entries kind).bind fun entry =>
      if entry.data.length < 4 then none else some (ofWire (entry.data.take 4))) := by
  have hFind := keeps.find_latest hKind
  cases hLatest : latest? life.entries kind with
  | none =>
      rw [hLatest] at hFind
      simp only [getWord, hFind, bind, Except.bind, pure, Except.pure, Option.bind]
  | some entry =>
      rw [hLatest] at hFind
      obtain ⟨record, hRecord, _, _, hRead⟩ := hFind
      simp only [getWord, hRecord, hRead, bind, Except.bind, pure, Except.pure, Option.bind,
        Packed.read?, size_word, List.length_take, List.take_take]
      by_cases hShort : entry.data.length < 4
      · rw [if_pos hShort, if_neg (by omega)]
      · rw [if_neg hShort, if_pos (by omega)]
        rfl

/-- Behind the last record the store is blank, and a slot is found there if a header fits. -/
theorem free_blank (keeps : store.Keeps life) :
    life.free store ≤ store.stop ∧ life.flash.Blank (life.free store) store.stop ∧
      store.find life.flash unset = .ok (if store.stop - life.free store < recordHeader then none
        else some ⟨unset, unset, life.free store⟩) := by
  obtain ⟨records, free, holds, hEntries⟩ := keeps.held
  rw [holds.free_eq hEntries]
  have hFits := holds.fits
  refine ⟨hFits, holds.blank, ?_⟩
  rw [holds.find_unset]
  by_cases hRoom : free + recordHeader ≤ store.stop
  · rw [if_pos hRoom, if_neg (by omega)]
  · rw [if_neg hRoom, if_pos (by omega)]

end Keeps

/-- On a flash without defects, and from a blank region on, a store remembers what was written last,
whatever is done to it: the last entry of each kind that was written and not erased since is found
and read, what fits is taken and what does not fit is refused and leaves the flash alone, and behind
the last record the region is blank. -/
theorem last_write_wins (store : Store) (flash : Flash) (sound : flash.Sound)
    (aligned : store.start % Flash.wordSize = 0) (inside : store.stop ≤ flash.bytes.size)
    (addressable : store.stop < UInt32.size) (blank : flash.Blank store.start store.stop)
    (operations : List Operation) :
    let life := Life.run store ⟨flash, []⟩ operations
    let left := store.stop - life.free store
    (∀ kind, kind ≠ unset →
      (match latest? life.entries kind with
        | none => store.find life.flash kind = .ok none
        | some entry => ∃ record, store.find life.flash kind = .ok (some record) ∧
            record.kind = kind ∧ record.length.toNat = entry.data.length ∧
              ∀ size, read life.flash record size = .ok (entry.data.take size)) ∧
      store.getWord life.flash kind = .ok ((latest? life.entries kind).bind fun entry =>
        if entry.data.length < 4 then none else some (ofWire (entry.data.take 4)))) ∧
    (∀ kind data,
      (store.write life.flash kind data).1 =
        (if kind = unset then .error .reservedKind
        else if left < recordSpan data.length then .error .noSpace
        else .ok ()) ∧
      ((store.write life.flash kind data).1 ≠ .ok () →
        (store.write life.flash kind data).2 = life.flash)) ∧
    (if store.start % Layout.pageSize = 0 ∧ store.stop % Layout.pageSize = 0 then
      (store.erase life.flash).1 = .ok ()
    else ∃ error, store.erase life.flash = (.error error, life.flash)) ∧
    life.free store ≤ store.stop ∧
    store.find life.flash unset =
      .ok (if left < recordHeader then none else some ⟨unset, unset, life.free store⟩) ∧
    life.flash.Blank (life.free store) store.stop := by
  intro life left
  have keeps : store.Keeps life := by
    have begun : store.Keeps ⟨flash, []⟩ :=
      ⟨sound, aligned, [], store.start, holds_blank sound inside addressable blank, rfl⟩
    exact begun.run operations
  obtain ⟨hFits, hBlank, hUnset⟩ := keeps.free_blank
  refine ⟨fun kind hKind => ⟨keeps.find_latest hKind, keeps.getWord_latest hKind⟩, ?_, ?_, hFits,
    hUnset, hBlank⟩
  · intro kind data
    rcases keeps.write_cases kind data with
      ⟨hKind, hWrite⟩ | ⟨hKind, hFull, hWrite⟩ | ⟨hKind, hRoom, after, hWrite, _⟩
    · rw [hWrite, if_pos hKind]
      exact ⟨rfl, fun _ => rfl⟩
    · rw [hWrite, if_neg hKind, if_pos (by omega)]
      exact ⟨rfl, fun _ => rfl⟩
    · rw [hWrite, if_neg hKind, if_neg (by omega)]
      exact ⟨rfl, fun hError => absurd rfl hError⟩
  · obtain ⟨records, free, holds, _⟩ := keeps.held
    have hErase := erase_of_sound keeps.sound holds.inside
    by_cases hPages : store.start % Layout.pageSize = 0 ∧ store.stop % Layout.pageSize = 0
    · rw [if_pos hPages] at hErase ⊢
      exact hErase.1
    · rwa [if_neg hPages] at hErase ⊢

/-- A blank region of two records takes two of them. -/
theorem last_write_wins_twice :
    let store : Store := ⟨0, 24⟩
    let flash : Flash := { bytes := Array.replicate 24 0xFF }
    let life := Life.run store ⟨flash, []⟩ [.setWord addressKind 10, .setWord addressKind 20]
    store.getWord life.flash addressKind = .ok (some 20) ∧
      store.find life.flash unset = .ok none ∧
      (store.setWord life.flash addressKind 30).1 = .error .noSpace ∧
      (store.setWord life.flash addressKind 30).2 = life.flash := by
  intro store flash life
  have blank : flash.Blank store.start store.stop :=
    fun i _ hHigh => Array.getElem?_replicate.trans (if_pos hHigh)
  have general := last_write_wins store flash ⟨rfl, rfl, rfl⟩ rfl (by decide) (by decide) blank
  have hFirst : (store.setWord flash addressKind 10).1 = .ok () :=
    ((general []).2.1 addressKind (toWire (10 : UInt32))).1
  have hOne : (Life.run store ⟨flash, []⟩ [.setWord addressKind 10]).entries =
      [⟨addressKind, toWire (10 : UInt32)⟩] := Life.entries_step hFirst
  have hLeft : store.stop -
      (Life.run store ⟨flash, []⟩ [.setWord addressKind 10]).free store = 12 := by
    rw [Life.free, hOne]
    rfl
  have hSecond : ((Operation.setWord addressKind 20).perform store
      (Life.run store ⟨flash, []⟩ [.setWord addressKind 10]).flash).1 = .ok () := by
    have hWrite := ((general [.setWord addressKind 10]).2.1 addressKind (toWire (20 : UInt32))).1
    rw [hLeft] at hWrite
    exact hWrite
  have hTwo : life.entries =
      [⟨addressKind, toWire (10 : UInt32)⟩, ⟨addressKind, toWire (20 : UInt32)⟩] := by
    have hLife : life = (Life.run store ⟨flash, []⟩ [.setWord addressKind 10]).step store
        (.setWord addressKind 20) := rfl
    rw [hLife, Life.entries_step hSecond, hOne]
    rfl
  have hFull : store.stop - life.free store = 0 := by
    rw [Life.free, hTwo]
    rfl
  obtain ⟨hKinds, hWrites, _, _, hUnset, _⟩ :=
    general [.setWord addressKind 10, .setWord addressKind 20]
  have hWord := (hKinds addressKind (by decide)).2
  obtain ⟨hOutcome, hSame⟩ := hWrites addressKind (toWire (30 : UInt32))
  rw [hTwo] at hWord
  rw [hFull] at hUnset hOutcome
  have hError : (store.setWord life.flash addressKind 30).1 = .error .noSpace := hOutcome
  exact ⟨hWord, hUnset, hError, hSame fun hOk => nomatch hError.symm.trans hOk⟩

end Multidrop.Store
