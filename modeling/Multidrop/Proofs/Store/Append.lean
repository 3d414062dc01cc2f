import Multidrop.Proofs.Store.Write

/-!
Setting a word, cut anywhere. The header of the new record is programmed before its data, so between
the two the record is already found while its data still reads as ones. There is no third state.
-/

namespace Multidrop.Store

def wordSpan : Nat := recordHeader + 4

/-- Programs the kind and the length of a record of one word. -/
def headerChange (free : Nat) (kind : UInt32) : Flash.Change :=
  .program free (toWire kind ++ toWire (4 : UInt32))

/-- Programs the data of a record of one word. -/
def dataChange (free : Nat) (value : UInt32) : Flash.Change :=
  .program (free + recordHeader) (toWire value)

theorem length_header (kind : UInt32) :
    (toWire kind ++ toWire (4 : UInt32)).length = recordHeader := by
  simp [recordHeader]

theorem words_toWire (value : UInt32) : words (toWire value) = [value] := by
  change [(ofWire (toWire value) : UInt32)] = [value]
  rw [ofWire_toWire]

/-- A word is appended as a header and the data behind it. -/
theorem programs_word (free : Nat) (kind value : UInt32) :
    Flash.programs free [toWire kind ++ toWire (4 : UInt32), toWire value] =
      [headerChange free kind, dataChange free value] := by
  simp [Flash.programs, headerChange, dataChange, recordHeader]

/-- A word is read from the record that is found. -/
theorem getWord_of_find {store : Store} {flash : Flash} {kind value : UInt32} {record : Record}
    (hFind : store.find flash kind = .ok (some record))
    (hRead : read flash record 4 = .ok (toWire value)) :
    store.getWord flash kind = .ok (some value) := by
  have hValue : Packed.read? UInt32 (toWire value) = some value := by
    simpa using read?_toWire value []
  simp only [getWord, hFind, hRead, bind, Except.bind, pure, Except.pure, hValue]

namespace Holds

variable {store : Store} {flash : Flash} {records : List Record} {free : Nat} {kind value : UInt32}

/-- The record that was appended last is the one whose word is found. -/
theorem getWord_last (holds : store.Holds flash (records ++ [⟨kind, 4, free⟩]) (free + wordSpan))
    (hKind : kind ≠ unset) (hData : flash.slice (free + recordHeader) 4 = toWire value) :
    store.getWord flash kind = .ok (some value) := by
  have hEnd : free + recordHeader + 4 ≤ flash.bytes.size := Nat.le_trans holds.fits holds.inside
  have hLength : min 4 (4 : UInt32).toNat = 4 := by decide
  have hFind : store.find flash kind = .ok (some ⟨kind, 4, free⟩) := by
    rw [holds.find_kind hKind, List.filter_append, List.filter_cons_of_pos (by simp),
      List.filter_nil, List.getLast?_concat]
  refine getWord_of_find hFind ?_
  rw [read, Record.data, hLength, holds.readable.read hEnd, hData]

/-- With its header in place, the new record is the last of the store. -/
theorem concat_word (holds : store.Holds flash records free) (hKind : kind ≠ unset)
    (hFits : free + wordSpan ≤ store.stop) {after : Flash}
    (confined : Flash.Confined free (free + wordSpan) flash after)
    (hHeader : after.slice free recordHeader = toWire kind ++ toWire (4 : UInt32)) :
    store.Holds after (records ++ [⟨kind, 4, free⟩]) (free + wordSpan) := by
  have hSpan : wordSpan = recordSpan (4 : UInt32).toNat := rfl
  rw [hSpan] at hFits confined ⊢
  exact holds.concat hKind hFits confined hHeader

/-- The header changes nothing around itself. -/
theorem confined_header (flash : Flash) (free : Nat) (kind : UInt32) :
    Flash.Confined free (free + recordHeader) flash (flash.carryOut (headerChange free kind)) := by
  refine .single flash (headerChange free kind) (Nat.le_refl _) (Nat.le_of_eq ?_)
  rw [headerChange, Flash.Change.stop, length_header]

/-- Nor does the data. -/
theorem confined_data (flash : Flash) (free : Nat) (value : UInt32) :
    Flash.Confined (free + recordHeader) (free + wordSpan) flash
      (flash.carryOut (dataChange free value)) := by
  refine .single flash (dataChange free value) (Nat.le_refl _) (Nat.le_of_eq ?_)
  rw [dataChange, Flash.Change.stop, length_toWire]
  rfl

/-- Into what is blank the header is programmed as it is. -/
theorem slice_header (holds : store.Holds flash records free)
    (hFits : free + wordSpan ≤ store.stop) :
    (flash.carryOut (headerChange free kind)).slice free recordHeader =
      toWire kind ++ toWire (4 : UInt32) := by
  have blank : flash.Blank free (free + (toWire kind ++ toWire (4 : UInt32)).length) := by
    rw [length_header]
    exact holds.blank.mono (Nat.le_refl _) (Nat.le_trans (by simp [wordSpan]) hFits)
  have hSlice := blank.slice_program holds.faithful
  rwa [length_header] at hSlice

/-- Cut after its header, a record holds ones. -/
theorem after_header (holds : store.Holds flash records free) (hKind : kind ≠ unset)
    (hFits : free + wordSpan ≤ store.stop) :
    store.Holds (flash.carryOut (headerChange free kind)) (records ++ [⟨kind, 4, free⟩])
        (free + wordSpan) ∧
      (flash.carryOut (headerChange free kind)).Blank (free + recordHeader) (free + wordSpan) := by
  have confined := confined_header flash free kind
  have blank : flash.Blank (free + recordHeader) (free + wordSpan) :=
    holds.blank.mono (Nat.le_add_right ..) hFits
  refine ⟨holds.concat_word hKind hFits (confined.mono (Nat.le_refl _) ?_) (holds.slice_header hFits),
    blank.confined confined (.inr (Nat.le_refl _))⟩
  simp [wordSpan]

/-- With its data in place as well, the record holds the word. -/
theorem after_data (holds : store.Holds flash records free) (hKind : kind ≠ unset)
    (hFits : free + wordSpan ≤ store.stop) :
    store.Holds ((flash.carryOut (headerChange free kind)).carryOut (dataChange free value))
        (records ++ [⟨kind, 4, free⟩]) (free + wordSpan) ∧
      ((flash.carryOut (headerChange free kind)).carryOut (dataChange free value)).slice
        (free + recordHeader) 4 = toWire value := by
  have hSpan : wordSpan = recordHeader + 4 := rfl
  have confined := confined_data (flash.carryOut (headerChange free kind)) free value
  obtain ⟨hHolds, blank⟩ := holds.after_header hKind hFits
  refine ⟨holds.concat_word hKind hFits ?_ ?_, ?_⟩
  · exact ((confined_header flash free kind).mono (Nat.le_refl _) (by omega)).trans
      (confined.mono (Nat.le_add_right ..) (Nat.le_refl _))
  · rw [confined.slice (.inl (Nat.le_refl _)), holds.slice_header hFits]
  · have hLength : (toWire value).length = 4 := length_toWire value
    rw [hSpan, ← Nat.add_assoc, ← hLength] at blank
    have hSlice := blank.slice_program hHolds.faithful
    rwa [hLength] at hSlice

/-- A word is programmed in two pieces. -/
theorem pieces_word (kind value : UInt32) :
    pieces kind (toWire value) = [toWire kind ++ toWire (4 : UInt32), toWire value] := by
  rw [pieces, words_toWire, length_toWire]
  rfl

/-- To set a word is to program its two pieces behind the last record, as long as there is space. -/
theorem setWord_eq (holds : store.Holds flash records free) (hKind : kind ≠ unset) :
    store.setWord flash kind value =
      if store.stop < free + wordSpan then (.error .noSpace, flash)
      else
        match flash.programAll free [toWire kind ++ toWire (4 : UInt32), toWire value] with
        | (.ok (), flash) => (.ok (), flash)
        | (.error error, flash) => (.error (.flash error), flash) := by
  rw [setWord, holds.write_eq hKind, pieces_word, length_toWire]
  rfl

/-- Setting a word carries out some of its two changes in order, and says whether it did both. -/
theorem setWord_replay (holds : store.Holds flash records free) (hKind : kind ≠ unset)
    (value : UInt32) :
    ∃ accepted, accepted <+: [headerChange free kind, dataChange free value] ∧
      (store.setWord flash kind value).2 = flash.replay accepted ∧
      ((store.setWord flash kind value).1 = .ok () ↔ accepted.length = 2) ∧
      (accepted ≠ [] → free + wordSpan ≤ store.stop) := by
  obtain ⟨accepted, hPrefix, hFlash, hOk, hRoom⟩ := holds.write_replay hKind (toWire value)
  rw [pieces_word, programs_word] at hPrefix hOk
  rw [length_toWire] at hRoom
  have hWhole : accepted = [headerChange free kind, dataChange free value] ↔
      accepted.length = 2 :=
    ⟨fun h => by rw [h]; rfl, fun h => hPrefix.eq_of_length h⟩
  exact ⟨accepted, hPrefix, hFlash, hOk.trans hWhole, hRoom⟩

/-- What is held and found while a word is being set, by how many of its changes were carried
out. -/
theorem reached (holds : store.Holds flash records free) (hKind : kind ≠ unset)
    (hFits : free + wordSpan ≤ store.stop) {reached : List Flash.Change}
    (hReached : reached <+: [headerChange free kind, dataChange free value]) :
    store.WellFormed (flash.replay reached) ∧
      store.getWord (flash.replay reached) kind =
        match reached.length with
        | 0 => store.getWord flash kind
        | 1 => .ok (some 0xFFFFFFFF)
        | _ => .ok (some value) := by
  rcases reached with _ | ⟨first, _ | ⟨second, rest⟩⟩
  · exact ⟨⟨records, free, holds⟩, rfl⟩
  · obtain ⟨rfl, _⟩ := List.cons_prefix_cons.mp hReached
    obtain ⟨hHolds, blank⟩ := holds.after_header hKind hFits
    refine ⟨⟨_, _, hHolds⟩, hHolds.getWord_last hKind ?_⟩
    exact blank.slice (Nat.le_refl _) (Nat.le_refl _)
  · obtain ⟨rfl, hRest⟩ := List.cons_prefix_cons.mp hReached
    obtain ⟨rfl, hNone⟩ := List.cons_prefix_cons.mp hRest
    rw [List.prefix_nil] at hNone
    subst hNone
    obtain ⟨hHolds, hData⟩ := holds.after_data hKind hFits
    exact ⟨⟨_, _, hHolds⟩, hHolds.getWord_last hKind hData⟩

end Holds

/-- Setting a word, successful, refused or cut short by a reset, leaves a well-formed store. The
word is then what it was, what was asked for, or, with the header of its record alone, all ones. -/
theorem setWord_cut {store : Store} {flash : Flash} (formed : store.WellFormed flash)
    {kind : UInt32} (hKind : kind ≠ unset) (value : UInt32) :
    ∃ free accepted, accepted <+: [headerChange free kind, dataChange free value] ∧
      (store.setWord flash kind value).2 = flash.replay accepted ∧
      ((store.setWord flash kind value).1 = .ok () ↔ accepted.length = 2) ∧
      ∀ reached, reached <+: accepted →
        store.WellFormed (flash.replay reached) ∧
          store.getWord (flash.replay reached) kind =
            match reached.length with
            | 0 => store.getWord flash kind
            | 1 => .ok (some 0xFFFFFFFF)
            | _ => .ok (some value) := by
  obtain ⟨records, free, holds⟩ := formed
  obtain ⟨accepted, hPrefix, hFlash, hOk, hRoom⟩ := holds.setWord_replay hKind value
  refine ⟨free, accepted, hPrefix, hFlash, hOk, fun reached hReached => ?_⟩
  by_cases hNone : accepted = []
  · subst hNone
    rw [List.prefix_nil] at hReached
    subst hReached
    exact ⟨⟨records, free, holds⟩, rfl⟩
  · exact holds.reached hKind (hRoom hNone) (hReached.trans hPrefix)

/-- An address that could not be stored is not stored, or it reads as all ones because its record
has a header and no data. -/
theorem storedAddress_of_refused {flash : Flash} (formed : standard.WellFormed flash)
    {address : UInt8} {error : StoreError}
    (hError : (standard.setWord flash addressKind address.toUInt32).1 = .error error) :
    storedAddress (standard.setWord flash addressKind address.toUInt32).2 = storedAddress flash ∨
      storedAddress (standard.setWord flash addressKind address.toUInt32).2 = 0xFF ∧
        ∃ free, (standard.setWord flash addressKind address.toUInt32).2 =
          flash.carryOut (headerChange free addressKind) := by
  obtain ⟨free, accepted, hPrefix, hFlash, hOk, hReached⟩ :=
    setWord_cut formed (by decide : addressKind ≠ unset) address.toUInt32
  obtain ⟨_, hWord⟩ := hReached accepted List.prefix_rfl
  rw [hFlash]
  rcases accepted with _ | ⟨first, _ | ⟨second, rest⟩⟩
  · exact .inl rfl
  · obtain ⟨rfl, _⟩ := List.cons_prefix_cons.mp hPrefix
    refine .inr ⟨?_, free, rfl⟩
    simp only [storedAddress, hWord]
    rfl
  · have hLength := hPrefix.length_le
    have hTwo : (first :: second :: rest).length = 2 := by
      simp only [List.length_cons, List.length_nil] at hLength ⊢
      omega
    rw [hOk.mpr hTwo] at hError
    cases hError

/-- An address that cannot be stored is not taken, and the answer says why. -/
theorem execute_of_refused {flash after : Flash} {address : UInt8} {error : StoreError}
    (hSet : standard.setWord flash addressKind address.toUInt32 = (.error error, after))
    {header : Header} (hCommand : header.command = .setAddress) (session : Session)
    (identity : Identity) :
    Shared.execute ⟨header, .address address⟩ session identity flash =
      ([.send [error.status]], after) := by
  simp only [Shared.execute, hCommand, Shared.setAddress, hSet]

/-- A word that is being set is cut between the two changes of its record at worst. So is the
address of a node that answers to a new one with an error. -/
theorem interrupted_setWord :
    (∀ (store : Store) (flash : Flash), store.WellFormed flash →
      ∀ kind : UInt32, kind ≠ unset → ∀ value : UInt32,
        ∃ free accepted, accepted <+: [headerChange free kind, dataChange free value] ∧
          (store.setWord flash kind value).2 = flash.replay accepted ∧
          ((store.setWord flash kind value).1 = .ok () ↔ accepted.length = 2) ∧
          ∀ reached, reached <+: accepted →
            store.WellFormed (flash.replay reached) ∧
              store.getWord (flash.replay reached) kind =
                match reached.length with
                | 0 => store.getWord flash kind
                | 1 => .ok (some 0xFFFFFFFF)
                | _ => .ok (some value)) ∧
    ∀ flash : Flash, standard.WellFormed flash →
      ∀ (request : Request) (session : Session) (identity : Identity) (status : UInt8),
        request.header.command = .setAddress → status ≠ 0 →
        (Shared.execute request session identity flash).1 = [.send [status]] →
          storedAddress (Shared.execute request session identity flash).2 = storedAddress flash ∨
            storedAddress (Shared.execute request session identity flash).2 = 0xFF ∧
              ∃ free, (Shared.execute request session identity flash).2 =
                flash.carryOut (headerChange free addressKind) := by
  refine ⟨fun store flash formed kind hKind value => setWord_cut formed hKind value, ?_⟩
  intro flash formed request session identity status hCommand hStatus hAnswer
  unfold Shared.execute at hAnswer ⊢
  rw [hCommand] at hAnswer ⊢
  cases hPayload : request.payload with
  | address address =>
      rw [hPayload] at hAnswer
      dsimp only [Shared.setAddress] at hAnswer ⊢
      cases hSet : standard.setWord flash addressKind address.toUInt32 with
      | mk outcome after =>
          rw [hSet] at hAnswer
          cases outcome with
          | ok => cases hAnswer
          | error error =>
              have hRefused := storedAddress_of_refused formed (congrArg Prod.fst hSet)
              rwa [hSet] at hRefused
  | _ =>
      rw [hPayload] at hAnswer
      cases hAnswer

/-- A flash that refuses to program the data of the second record of its store, after an address was
stored once. -/
def worn : Flash :=
  ({ bytes := Array.replicate Layout.flashSize 0xFF
     faults := [⟨.program, 0xC014, 0xC018, .other⟩] } : Flash).replay
    [headerChange 0xC000 addressKind, dataChange 0xC000 5]

/-- The worn store holds the address 5. -/
theorem worn_holds :
    standard.Holds worn [⟨addressKind, 4, 0xC000⟩] 0xC00C ∧
      standard.getWord worn addressKind = .ok (some 5) := by
  have hSize : (Array.replicate Layout.flashSize (0xFF : UInt8)).size = 65536 :=
    Array.size_replicate
  have holds : standard.Holds
      { bytes := Array.replicate Layout.flashSize 0xFF
        faults := [⟨.program, 0xC014, 0xC018, .other⟩] } [] 0xC000 := {
    readable := by simp [Flash.Readable]
    faithful := rfl
    inside := Nat.le_of_eq hSize.symm
    addressable := by decide
    log := .nil 0xC000
    fits := by decide
    blank := by
      intro i _ hHigh
      have hInside : i < Layout.flashSize := Nat.lt_of_lt_of_le hHigh (by decide)
      simp [hInside] }
  have hKind : addressKind ≠ unset := by decide
  obtain ⟨hHolds, hData⟩ := holds.after_data hKind (by decide)
  exact ⟨hHolds, hHolds.getWord_last (by decide) hData⟩

/-- In the worn store a word can be started but not completed. -/
theorem setWord_worn {kind : UInt32} (hKind : kind ≠ unset) :
    standard.setWord worn kind 7 =
      (.error (.flash .other), worn.carryOut (headerChange 0xC00C kind)) := by
  have hHeader : worn.programRefusal? 0xC00C recordHeader = none := by
    simp [Flash.programRefusal?, Flash.refusal?, Flash.Fault.refuses, Flash.wordSize, worn,
      recordHeader, Layout.flashSize]
  have hData : (worn.carryOut (headerChange 0xC00C kind)).programRefusal?
      (0xC00C + recordHeader) (Packed.size UInt32) = some .other := by
    simp [Flash.programRefusal?, Flash.refusal?, Flash.Fault.refuses, Flash.wordSize, worn,
      recordHeader]
  rw [headerChange] at hData ⊢
  rw [worn_holds.1.setWord_eq hKind, if_neg (by decide), Flash.programAll_cons,
    length_header, hHeader]
  dsimp only
  rw [Flash.programAll_cons, length_toWire, hData]

/-- The new record is found with a word that is neither the old one nor the new one. -/
theorem torn_word :
    standard.WellFormed worn ∧
      (standard.setWord worn addressKind 7).1 = .error (.flash .other) ∧
      standard.getWord worn addressKind = .ok (some 5) ∧
      standard.getWord (standard.setWord worn addressKind 7).2 addressKind =
        .ok (some 0xFFFFFFFF) := by
  obtain ⟨hHolds, hWord⟩ := worn_holds
  have hKind : addressKind ≠ unset := by decide
  obtain ⟨hAfter, blank⟩ := hHolds.after_header hKind (by decide)
  refine ⟨⟨_, _, hHolds⟩, congrArg Prod.fst (setWord_worn hKind), hWord, ?_⟩
  rw [setWord_worn hKind]
  exact hAfter.getWord_last (by decide) (blank.slice (Nat.le_refl _) (Nat.le_refl _))

/-- The request that gives a node with the address 5 the address 7. -/
def readdress : Request := ⟨⟨6, 5, .setAddress⟩, .address 7⟩

/-- A worn store that is told a new address stops after the header, and is well formed after it. -/
theorem interrupted_setWord_worn :
    (∃ free accepted, accepted <+: [headerChange free addressKind, dataChange free 7] ∧
      (standard.setWord worn addressKind 7).2 = worn.replay accepted ∧ accepted.length ≠ 2 ∧
      standard.WellFormed (worn.replay accepted)) ∧
    (storedAddress (Shared.execute readdress ⟨readdress.header, 5, 5, false, #[]⟩
        (.named .inBootloader 0 0 []) worn).2 = storedAddress worn ∨
      storedAddress (Shared.execute readdress ⟨readdress.header, 5, 5, false, #[]⟩
        (.named .inBootloader 0 0 []) worn).2 = 0xFF ∧
        ∃ free, (Shared.execute readdress ⟨readdress.header, 5, 5, false, #[]⟩
          (.named .inBootloader 0 0 []) worn).2 =
            worn.carryOut (headerChange free addressKind)) := by
  have formed : standard.WellFormed worn := ⟨_, _, worn_holds.1⟩
  obtain ⟨hWord, hAddress⟩ := interrupted_setWord
  constructor
  · obtain ⟨free, accepted, hPrefix, hFlash, hOk, hReached⟩ :=
      hWord standard worn formed addressKind (by decide) 7
    refine ⟨free, accepted, hPrefix, hFlash, ?_, (hReached accepted List.prefix_rfl).1⟩
    intro hTwo
    have hDone := hOk.mpr hTwo
    rw [setWord_worn (by decide)] at hDone
    cases hDone
  · have hSeven : (7 : UInt8).toUInt32 = 7 := by decide
    have hSet := setWord_worn (by decide : addressKind ≠ unset)
    rw [← hSeven] at hSet
    have hCommand : readdress.header.command = .setAddress := rfl
    have hAnswer := execute_of_refused hSet hCommand ⟨readdress.header, 5, 5, false, #[]⟩
      (.named .inBootloader 0 0 [])
    exact hAddress worn formed readdress _ _ 0xFD rfl (by decide) (congrArg Prod.fst hAnswer)

end Multidrop.Store
