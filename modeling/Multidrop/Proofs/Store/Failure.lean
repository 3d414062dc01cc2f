import Multidrop.Proofs.Store.Append
import Multidrop.Proofs.Store.LastWrite

/-!
Appending a record on a flash that refuses to program some of it. Once its header is programmed, a
record takes the place it says it takes, whether its data came or not. So the log goes on behind it,
and nothing that stood there before is lost.
-/

namespace Multidrop.Store

/-- Defects that are gone, or others that do not refuse to read, change nothing in a log. -/
theorem Log.of_readable {first second : Flash} {start free : Nat} {records : List Record}
    (log : Log first start records free) (readable : second.Readable)
    (hBytes : second.bytes = first.bytes) : Log second start records free := by
  induction log with
  | nil offset => exact .nil offset
  | @cons offset next free record records hRead hKind hNext rest ih =>
      refine .cons ?_ hKind hNext ih
      rw [recordAt] at hRead ⊢
      cases hHeader : first.read offset recordHeader with
      | error error =>
          rw [hHeader] at hRead
          cases hRead
      | ok bytes =>
          rw [hHeader] at hRead
          rw [readable.read_of_ok (congrArg _ hBytes.symm) (fun _ _ _ => by rw [hBytes]) hHeader]
          exact hRead

/-- So much of a record was programmed where the free space starts. Nothing is programmed of one
that is of the kind of free space, or that does not fit. -/
structure Cut (store : Store) (free : Nat) (kind : UInt32) (data : List UInt8)
    (accepted : List Flash.Change) : Prop where
  begun : accepted <+: Flash.programs free (pieces kind data)
  kind_ne : accepted ≠ [] → kind ≠ unset
  fits : accepted ≠ [] → free + recordSpan data.length ≤ store.stop

/-- The last entry of a kind is the latest. -/
theorem latest?_concat (entries : List Entry) (kind : UInt32) (data : List UInt8) :
    latest? (entries ++ [⟨kind, data⟩]) kind = some ⟨kind, data⟩ := by
  rw [latest?, List.filter_append, List.filter_cons_of_pos (by simp), List.filter_nil,
    List.getLast?_concat]

namespace Holds

variable {store : Store} {flash : Flash} {records : List Record} {free : Nat} {kind : UInt32}
  {data : List UInt8} {accepted : List Flash.Change}

/-- A flash without defects that has the same bytes holds the same records. -/
theorem of_sound (holds : store.Holds flash records free) {repaired : Flash}
    (sound : repaired.Sound) (hBytes : repaired.bytes = flash.bytes) :
    store.Holds repaired records free where
  readable := sound.readable
  faithful := sound.stuckWords
  inside := hBytes.symm ▸ holds.inside
  addressable := holds.addressable
  log := holds.log.of_readable sound.readable hBytes
  fits := holds.fits
  blank := fun i hLow hHigh => hBytes ▸ holds.blank i hLow hHigh

/-- However far programming a record comes, what is held is what was held before, or the record as
well. -/
theorem cut (holds : store.Holds flash records free) (cut : store.Cut free kind data accepted) :
    accepted = [] ∨ store.Holds (flash.replay accepted)
      (records ++ [⟨kind, UInt32.ofNat data.length, free⟩]) (free + recordSpan data.length) := by
  obtain ⟨hPrefix, hTold, hRoom⟩ := cut
  rcases accepted with _ | ⟨change, rest⟩
  · exact .inl rfl
  · right
    have hKind := hTold (List.cons_ne_nil _ _)
    have hFits := hRoom (List.cons_ne_nil _ _)
    have hSpan := length_pieces kind data
    have hWord := toNat_length data (Nat.lt_of_le_of_lt (by omega) holds.addressable)
    have confined : Flash.Confined free (free + recordSpan data.length) flash
        (flash.replay (change :: rest)) :=
      hSpan ▸ Flash.Confined.of_programs hPrefix flash
    obtain ⟨header, hHeader⟩ : ∃ header,
        header = toWire kind ++ toWire (UInt32.ofNat data.length) := ⟨_, rfl⟩
    have hLength : header.length = recordHeader := by
      rw [hHeader, List.length_append, length_toWire, length_toWire]
      rfl
    rw [pieces, ← hHeader, Flash.programs, hLength] at hPrefix
    obtain ⟨rfl, hRest⟩ := List.cons_prefix_cons.mp hPrefix
    have blank : flash.Blank free (free + header.length) := by
      rw [hLength]
      refine holds.blank.mono (Nat.le_refl _) (Nat.le_trans ?_ hFits)
      exact Nat.add_le_add_left (Nat.le_add_right ..) free
    have hFirst := blank.slice_program holds.faithful
    rw [hLength, hHeader] at hFirst
    -- The words are programmed behind the header.
    have hBehind := Flash.Confined.of_programs hRest (flash.carryOut (.program free header))
    have hStored : (flash.replay (.program free header :: rest)).slice free recordHeader =
        toWire kind ++ toWire (UInt32.ofNat data.length) := by
      rw [Flash.replay_cons, hBehind.slice (.inl (Nat.le_refl _)), hHeader]
      exact hFirst
    have hHolds := holds.concat hKind (hWord.symm ▸ hFits) (hWord.symm ▸ confined) hStored
    rwa [hWord] at hHolds

/-- What is found of another kind stands before the record that is appended. -/
theorem find_other (holds : store.Holds flash records free) {after : Flash} {record : Record}
    {stop : Nat} (holdsAfter : store.Holds after (records ++ [record]) stop)
    (confined : Flash.Confined free stop flash after) {other : UInt32} (hUnset : other ≠ unset)
    (hOther : record.kind ≠ other) :
    store.find after other = store.find flash other ∧
      store.getWord after other = store.getWord flash other := by
  have hFind : store.find after other = store.find flash other := by
    have hNone : [record].filter (·.kind == other) = [] := by simp [hOther]
    rw [holdsAfter.find_kind hUnset, holds.find_kind hUnset, List.filter_append, hNone,
      List.append_nil]
  refine ⟨hFind, ?_⟩
  have hBefore := holds.find_kind hUnset
  rw [getWord, getWord, hFind, hBefore]
  cases hLast : (records.filter (·.kind == other)).getLast? with
  | none => rfl
  | some found =>
      have hMem := (List.mem_filter.mp (List.mem_of_getLast? hLast)).1
      have hData := holds.log.data_le found hMem
      have hRead : read after found 4 = read flash found 4 := by
        rw [read, read, confined.read (.inl (by omega))]
      simp only [bind, Except.bind, hRead]

/-- A write that was cut short touches nothing outside its record. -/
theorem touches_cut (cut : store.Cut free kind data accepted) {i : Nat}
    (h : Flash.Touches flash (flash.replay accepted) i) :
    free ≤ i ∧ i < free + recordSpan data.length ∧ i < store.stop := by
  have confined := Flash.Confined.of_programs cut.begun flash
  rw [length_pieces] at confined
  obtain ⟨hLow, hHigh⟩ := confined.of_touches h
  have hSome : accepted ≠ [] := by
    rintro rfl
    exact flash.not_touches_self i h
  have hFits := cut.fits hSome
  omega

/-- Nor does it change what is found of other kinds. -/
theorem find_cut (holds : store.Holds flash records free)
    (cut : store.Cut free kind data accepted) {other : UInt32} (hOther : other ≠ kind)
    (hUnset : other ≠ unset) :
    store.find (flash.replay accepted) other = store.find flash other ∧
      store.getWord (flash.replay accepted) other = store.getWord flash other := by
  rcases holds.cut cut with rfl | holdsAfter
  · exact ⟨rfl, rfl⟩
  · have confined := Flash.Confined.of_programs cut.begun flash
    rw [length_pieces] at confined
    exact holds.find_other holdsAfter confined hUnset (Ne.symm hOther)

/-- A flash without defects takes the next record that fits, and gives it back. -/
theorem write_later (holds : store.Holds flash records free) {repaired : Flash}
    (sound : repaired.Sound) (hBytes : repaired.bytes = flash.bytes)
    (aligned : store.start % Flash.wordSize = 0) {later : UInt32} (hLater : later ≠ unset)
    {more : List UInt8} {slot : Record} (hSlot : store.find repaired unset = .ok (some slot))
    (hFits : slot.offset + recordSpan more.length ≤ store.stop) :
    ∃ final found, store.write repaired later more = (.ok (), final) ∧
      store.find final later = .ok (some found) ∧ found.length.toNat = more.length ∧
        ∀ size, read final found size = .ok (more.take size) := by
  have holds := holds.of_sound sound hBytes
  have keeps : store.Keeps ⟨repaired, records.map (·.entry repaired)⟩ :=
    ⟨sound, aligned, records, free, holds, rfl⟩
  have hFree : slot.offset = free := by
    rw [holds.find_unset] at hSlot
    split at hSlot <;> cases hSlot
    rfl
  rcases keeps.write_cases later more with
    ⟨hKind, _⟩ | ⟨_, hFull, _⟩ | ⟨_, _, final, hWrite, after⟩
  · exact absurd hKind hLater
  · rw [holds.free_eq rfl, ← hFree] at hFull
    omega
  · have hFind := after.find_latest hLater
    rw [latest?_concat] at hFind
    obtain ⟨found, hFound, _, hLength, hRead⟩ := hFind
    exact ⟨final, found, hWrite, hFound, hLength, hRead⟩

end Holds

/-- Whatever a flash refuses to program, appending a record programs nothing but the place the
record takes, from the start of the free space on and inside the region. However far it comes, the
records of other kinds are found as before and the store is well-formed, so that on a flash whose
defects are gone the next record that fits is written and found. -/
theorem failed_write_contained (store : Store) (flash : Flash) (formed : store.WellFormed flash)
    (aligned : store.start % Flash.wordSize = 0) (kind : UInt32) (data : List UInt8) :
    ∃ free,
      store.find flash unset =
        .ok (if free + recordHeader ≤ store.stop then some ⟨unset, unset, free⟩ else none) ∧
      (∃ accepted, store.Cut free kind data accepted ∧
        (store.write flash kind data).2 = flash.replay accepted ∧
        ((store.write flash kind data).1 = .ok () ↔
          accepted = Flash.programs free (pieces kind data))) ∧
      ∀ accepted, store.Cut free kind data accepted →
        (∀ i, Flash.Touches flash (flash.replay accepted) i →
          free ≤ i ∧ i < free + recordSpan data.length ∧ i < store.stop) ∧
        (∀ other, other ≠ kind → other ≠ unset →
          store.find (flash.replay accepted) other = store.find flash other ∧
            store.getWord (flash.replay accepted) other = store.getWord flash other) ∧
        store.WellFormed (flash.replay accepted) ∧
        ∀ repaired : Flash, repaired.Sound → repaired.bytes = (flash.replay accepted).bytes →
          ∀ (later : UInt32) (more : List UInt8) (slot : Record), later ≠ unset →
            store.find repaired unset = .ok (some slot) →
            slot.offset + recordSpan more.length ≤ store.stop →
              ∃ final found, store.write repaired later more = (.ok (), final) ∧
                store.find final later = .ok (some found) ∧ found.length.toNat = more.length ∧
                  ∀ size, read final found size = .ok (more.take size) := by
  obtain ⟨records, free, holds⟩ := formed
  refine ⟨free, holds.find_unset, ?_, ?_⟩
  · by_cases hKind : kind = unset
    · have hSome : Flash.programs free (pieces kind data) ≠ [] := List.cons_ne_nil _ _
      refine ⟨[], ⟨List.nil_prefix, absurd rfl, absurd rfl⟩, ?_⟩
      rw [write, if_pos hKind]
      exact ⟨rfl, by simp, fun h => absurd h.symm hSome⟩
    · obtain ⟨accepted, hPrefix, hFlash, hOk, hFits⟩ := holds.write_replay hKind data
      exact ⟨accepted, ⟨hPrefix, fun _ => hKind, hFits⟩, hFlash, hOk⟩
  · intro accepted cut
    have hHolds : ∃ records free, store.Holds (flash.replay accepted) records free := by
      rcases holds.cut cut with rfl | holdsAfter
      · exact ⟨records, free, holds⟩
      · exact ⟨_, _, holdsAfter⟩
    refine ⟨fun i => Holds.touches_cut cut, fun other => holds.find_cut cut, hHolds, ?_⟩
    intro repaired sound hBytes later more slot hLater hSlot hFits
    obtain ⟨records, free, holdsAfter⟩ := hHolds
    exact holdsAfter.write_later sound hBytes aligned hLater hSlot hFits

/-- A record of another kind loses its data on a flash that holds an address. The address is still
found, and can be replaced once the flash takes what it is given. -/
theorem failed_write_contained_worn :
    standard.WellFormed worn ∧ standard.start % Flash.wordSize = 0 ∧
      ∃ torn, standard.write worn 2 (toWire (7 : UInt32)) = (.error (.flash .other), torn) ∧
        standard.getWord torn addressKind = .ok (some 5) ∧ standard.WellFormed torn ∧
        ∃ final found,
          standard.write { torn with faults := [] } addressKind (toWire (7 : UInt32)) =
            (.ok (), final) ∧
          standard.find final addressKind = .ok (some found) ∧
          read final found 4 = .ok (toWire (7 : UInt32)) := by
  have hKind : (2 : UInt32) ≠ unset := by decide
  have formed : standard.WellFormed worn := ⟨_, _, worn_holds.1⟩
  have aligned : standard.start % Flash.wordSize = 0 := by decide
  have hWrite := setWord_worn hKind
  rw [setWord] at hWrite
  obtain ⟨hHolds, _⟩ := worn_holds.1.after_header hKind (by decide)
  obtain ⟨free, _, ⟨accepted, cut, hFlash, _⟩, hCut⟩ :=
    failed_write_contained standard worn formed aligned 2 (toWire (7 : UInt32))
  obtain ⟨_, hOthers, hFormed, hLater⟩ := hCut accepted cut
  rw [hWrite] at hFlash
  dsimp only at hFlash
  rw [hFlash] at hWrite hHolds
  have hWord := (hOthers addressKind (by decide) (by decide)).2
  rw [worn_holds.2] at hWord
  have sound : ({ worn.replay accepted with faults := [] } : Flash).Sound :=
    ⟨rfl, (Flash.stuckPages_replay ..).trans rfl, (Flash.stuckWords_replay ..).trans rfl⟩
  have hSlot := (hHolds.of_sound sound rfl).find_unset
  rw [if_pos (by decide)] at hSlot
  obtain ⟨final, found, hFinal, hFound, _, hRead⟩ :=
    hLater _ sound rfl addressKind (toWire (7 : UInt32)) _ (by decide) hSlot (by decide)
  exact ⟨formed, aligned, _, hWrite, hWord, hFormed, final, found, hFinal, hFound, hRead 4⟩

end Multidrop.Store
