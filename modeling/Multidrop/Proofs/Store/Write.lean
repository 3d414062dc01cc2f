import Multidrop.Proofs.Store.Region

/-!
Appending a record of any length. Its header and its words are programmed one after the other into
the blank part of the region, and from the header on it is a record like the others. A flash without
defects takes all of it.
-/

namespace Multidrop.Store

/-- How many bytes a record with so much data takes: its header, and its data in whole words. -/
def recordSpan (length : Nat) : Nat :=
  recordHeader + (length + 3) / 4 * 4

/-- The pieces in which a record is programmed. -/
def pieces (kind : UInt32) (data : List UInt8) : List (List UInt8) :=
  (toWire kind ++ toWire (UInt32.ofNat data.length)) :: (words data).map toWire

/-- The pieces of a record make up its span. -/
theorem length_pieces (kind : UInt32) (data : List UInt8) :
    (pieces kind data).flatten.length = recordSpan data.length := by
  rw [pieces, List.flatten_cons, List.length_append, length_flatten_words, List.length_append,
    length_toWire, length_toWire]
  rfl

/-- Every piece is made of whole words. -/
theorem aligned_pieces (kind : UInt32) (data : List UInt8) :
    ∀ piece ∈ pieces kind data, piece.length % Flash.wordSize = 0 := by
  simp [pieces, Flash.wordSize]

theorem toNat_length (data : List UInt8) (h : recordSpan data.length < UInt32.size) :
    (UInt32.ofNat data.length).toNat = data.length := by
  rw [UInt32.toNat_ofNat', Nat.mod_eq_of_lt]
  simp only [recordSpan, UInt32.size] at *
  omega

/-- A record has a span if it can be counted in 32 bits. -/
theorem span?_eq (length : Nat) :
    span? length = if recordSpan length < UInt32.size then some (recordSpan length) else none := by
  have hRound : (length + (recordHeader + 3)) / 4 * 4 = recordSpan length := by
    simp only [recordSpan, recordHeader]
    omega
  have hSmall : length + (recordHeader + 3) < UInt32.size ↔ recordSpan length < UInt32.size := by
    simp only [recordSpan, recordHeader, UInt32.size]
    omega
  simp only [span?, hRound, hSmall]

/-- There is a next record if its offset can be counted in 32 bits. -/
theorem Record.next?_eq (record : Record) :
    record.next? =
      if record.offset + recordSpan record.length.toNat < UInt32.size then
        some (record.offset + recordSpan record.length.toNat)
      else none := by
  rw [next?, span?_eq]
  by_cases hSpan : recordSpan record.length.toNat < UInt32.size
  · rw [if_pos hSpan]
    rfl
  · rw [if_neg hSpan, if_neg (by omega)]
    rfl

/-- Records that start at a word take whole words. -/
theorem Log.aligned {flash : Flash} {start free : Nat} {records : List Record}
    (log : Log flash start records free) (aligned : start % Flash.wordSize = 0) :
    free % Flash.wordSize = 0 := by
  induction log with
  | nil offset => exact aligned
  | @cons offset next free record records hRead hKind hNext rest ih =>
      apply ih
      rw [Record.next?_eq, offset_recordAt hRead] at hNext
      split at hNext <;> cases hNext
      simp only [Flash.wordSize, recordSpan, recordHeader] at aligned ⊢
      omega

namespace Holds

variable {store : Store} {flash : Flash} {records : List Record} {free : Nat} {kind : UInt32}

/-- A record whose header was programmed is in the log, whatever its data is. -/
theorem concat (holds : store.Holds flash records free) (hKind : kind ≠ unset) {length : UInt32}
    (hFits : free + recordSpan length.toNat ≤ store.stop) {after : Flash}
    (confined : Flash.Confined free (free + recordSpan length.toNat) flash after)
    (hHeader : after.slice free recordHeader = toWire kind ++ toWire length) :
    store.Holds after (records ++ [⟨kind, length, free⟩]) (free + recordSpan length.toNat) := by
  have hInside : store.stop ≤ after.bytes.size :=
    Nat.le_trans holds.inside (Nat.le_of_eq confined.size.symm)
  have hHeaderFits : free + recordHeader ≤ after.bytes.size := by
    simp only [recordSpan] at hFits
    omega
  have hRecord : recordAt after free = .ok ⟨kind, length, free⟩ :=
    recordAt_of_slice (confined.readable holds.readable) hHeaderFits hHeader
  have hNext : (⟨kind, length, free⟩ : Record).next? = some (free + recordSpan length.toNat) := by
    rw [Record.next?_eq]
    exact if_pos (Nat.lt_of_le_of_lt hFits holds.addressable)
  exact {
    readable := confined.readable holds.readable
    faithful := confined.stuckWords.trans holds.faithful
    inside := hInside
    addressable := holds.addressable
    log := (holds.log.confined confined).concat hRecord hKind hNext
    fits := hFits
    blank := (holds.blank.mono (by omega) (Nat.le_refl _)).confined confined
      (.inr (Nat.le_refl _)) }

/-- What is appended goes where the free space starts, if all of it fits there. -/
theorem write_eq (holds : store.Holds flash records free) (hKind : kind ≠ unset)
    (data : List UInt8) :
    store.write flash kind data =
      if store.stop < free + recordSpan data.length then (.error .noSpace, flash)
      else
        match flash.programAll free (pieces kind data) with
        | (.ok (), flash) => (.ok (), flash)
        | (.error error, flash) => (.error (.flash error), flash) := by
  have hAddressable := holds.addressable
  have hHeader : recordHeader ≤ recordSpan data.length := Nat.le_add_right ..
  rw [write, if_neg hKind, holds.find_unset]
  by_cases hFree : free + recordHeader ≤ store.stop
  · rw [if_pos hFree]
    dsimp only
    rw [span?_eq]
    by_cases hSpan : recordSpan data.length < UInt32.size
    · rw [if_pos hSpan]
      rfl
    · rw [if_neg hSpan, if_pos (by omega)]
  · rw [if_neg hFree, if_pos (by omega)]

/-- Appending carries out some of its changes in order, and says whether it did all of them. -/
theorem write_replay (holds : store.Holds flash records free) (hKind : kind ≠ unset)
    (data : List UInt8) :
    ∃ accepted, accepted <+: Flash.programs free (pieces kind data) ∧
      (store.write flash kind data).2 = flash.replay accepted ∧
      ((store.write flash kind data).1 = .ok () ↔
        accepted = Flash.programs free (pieces kind data)) ∧
      (accepted ≠ [] → free + recordSpan data.length ≤ store.stop) := by
  rw [holds.write_eq hKind]
  by_cases hFull : store.stop < free + recordSpan data.length
  · rw [if_pos hFull]
    exact ⟨[], List.nil_prefix, rfl, by simp [pieces, Flash.programs], by simp⟩
  · rw [if_neg hFull]
    obtain ⟨accepted, hPrefix, hFlash, hOk⟩ := flash.programAll_replay free (pieces kind data)
    refine ⟨accepted, hPrefix, ?_, ?_, fun _ => Nat.le_of_not_lt hFull⟩
    · rw [← hFlash]
      split <;> simp_all
    · rw [← hOk]
      split <;> simp_all

/-- On a flash without defects a record that fits is written, and holds its data. -/
theorem write_of_fits (holds : store.Holds flash records free) (sound : flash.Sound)
    (aligned : store.start % Flash.wordSize = 0) (hKind : kind ≠ unset) {data : List UInt8}
    (hFits : free + recordSpan data.length ≤ store.stop) :
    ∃ after, store.write flash kind data = (.ok (), after) ∧
      Flash.Confined free (free + recordSpan data.length) flash after ∧
      store.Holds after (records ++ [⟨kind, UInt32.ofNat data.length, free⟩])
        (free + recordSpan data.length) ∧
      after.slice (free + recordHeader) data.length = data := by
  have hLength := length_pieces kind data
  have hInside : free + (pieces kind data).flatten.length ≤ flash.bytes.size :=
    hLength ▸ Nat.le_trans hFits holds.inside
  have blank : flash.Blank free (free + (pieces kind data).flatten.length) :=
    holds.blank.mono (Nat.le_refl _) (hLength ▸ hFits)
  have hWord := toNat_length data (by have := holds.addressable; omega)
  have hBytes := blank.slice_programs holds.faithful hInside
  have confined : Flash.Confined free (free + (pieces kind data).flatten.length) flash
      (flash.replay (Flash.programs free (pieces kind data))) :=
    .of_programs List.prefix_rfl flash
  rw [hLength] at hBytes confined
  obtain ⟨after, hAfter⟩ : ∃ after, after = flash.replay (Flash.programs free (pieces kind data)) :=
    ⟨_, rfl⟩
  have hWrite : store.write flash kind data = (.ok (), after) := by
    rw [holds.write_eq hKind, if_neg (Nat.not_lt.mpr hFits),
      Flash.programAll_of_no_faults sound.faults (holds.log.aligned aligned)
        (aligned_pieces kind data) hInside, hAfter]
  rw [← hAfter] at hBytes confined
  have hPart (skip count : Nat) (h : skip + count ≤ recordSpan data.length) :
      after.slice (free + skip) count = ((pieces kind data).flatten.drop skip).take count := by
    rw [← hBytes, after.take_drop_slice h]
  have hWords : data.length ≤ (data.length + 3) / 4 * 4 := by omega
  have hHeader : after.slice free recordHeader =
      toWire kind ++ toWire (UInt32.ofNat data.length) :=
    (hPart 0 recordHeader (by simp [recordSpan])).trans (List.take_left' (by simp [recordHeader]))
  have hData : after.slice (free + recordHeader) data.length = data := by
    rw [hPart recordHeader data.length (Nat.add_le_add_left hWords _), pieces, List.flatten_cons,
      List.drop_left' (by simp [recordHeader])]
    exact (List.prefix_iff_eq_take.mp (prefix_flatten_words data)).symm
  have hHolds := holds.concat hKind (hWord.symm ▸ hFits) (hWord.symm ▸ confined) hHeader
  rw [hWord] at hHolds
  exact ⟨after, hWrite, confined, hHolds, hData⟩

end Holds

end Multidrop.Store
