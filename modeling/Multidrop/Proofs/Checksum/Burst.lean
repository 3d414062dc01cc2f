import Multidrop.Proofs.Bootloader.Outcome
import Multidrop.Proofs.Checksum.Register

/-!
What a checksum is sure to notice. Up to 32 bits in a row can be read back from what they do to the
register, and all that comes before and after them is the same for both registers, so two inputs
that differ within such a window have different checksums.
-/

namespace Multidrop.Checksum

/-- Two inputs of one length that differ, and only within 32 bits in a row. -/
structure Burst (first second : List UInt8) : Prop where
  length_eq : first.length = second.length
  differ : first ≠ second
  window : ∃ start, ∀ i, (stream first)[i]? ≠ (stream second)[i]? → start ≤ i ∧ i < start + 32

/-- Each word, also the last that may not be full, is fed as 32 bits. -/
theorem length_stream (bytes : List UInt8) :
    (stream bytes).length = (bytes.length + 3) / 4 * 32 := by
  have hEach : (words bytes).map (fun word => (bits word).length) =
      List.replicate (words bytes).length 32 := by
    rw [← List.map_const']
    exact List.map_congr_left fun word _ => length_bits word
  rw [stream, List.length_flatMap, hEach, List.sum_replicate_nat, length_words]

/-- Sequences of one length that have the same words are the same. -/
theorem eq_of_words {first second : List UInt8} (hLength : first.length = second.length)
    (h : words first = words second) : first = second := by
  have hFirst := prefix_flatten_words first
  rw [h] at hFirst
  have hPrefix := List.prefix_of_prefix_length_le hFirst (prefix_flatten_words second)
    (Nat.le_of_eq hLength)
  exact hPrefix.eq_of_length hLength

/-- Words that have the same bits are the same. -/
theorem eq_of_flatMap_bits {first second : List UInt32} (hLength : first.length = second.length)
    (h : first.flatMap bits = second.flatMap bits) : first = second := by
  induction first generalizing second with
  | nil => exact (List.eq_nil_of_length_eq_zero hLength.symm).symm
  | cons word rest ih =>
      cases second with
      | nil => cases hLength
      | cons other others =>
          rw [List.flatMap_cons, List.flatMap_cons] at h
          obtain ⟨hWord, hRest⟩ := List.append_inj h (by simp)
          rw [ih (Nat.succ.inj hLength) hRest, ← packed_bits word, hWord, packed_bits]

/-- Bytes are known from their bits and their number. -/
theorem eq_of_stream {first second : List UInt8} (hLength : first.length = second.length)
    (h : stream first = stream second) : first = second := by
  have hWords : (words first).length = (words second).length := by
    rw [length_words, length_words, hLength]
  exact eq_of_words hLength (eq_of_flatMap_bits hWords h)

/-- Bits that differ only within a window of 32 leave registers that differ. -/
theorem foldl_feed_ne {first second : List Bool} (hLength : first.length = second.length)
    (hDiffer : first ≠ second) {start : Nat}
    (window : ∀ i, first[i]? ≠ second[i]? → start ≤ i ∧ i < start + 32) (register : UInt32) :
    first.foldl feed register ≠ second.foldl feed register := by
  have hSplit (bits : List Bool) : bits =
      bits.take start ++ ((bits.drop start).take 32 ++ bits.drop (start + 32)) := by
    rw [← List.drop_drop, List.take_append_drop, List.take_append_drop]
  have hBefore : first.take start = second.take start := by
    apply List.ext_getElem?
    intro i
    rw [List.getElem?_take, List.getElem?_take]
    split
    case isTrue hIn =>
      by_contra hOther
      have hInside := window i hOther
      omega
    case isFalse => rfl
  have hAfter : first.drop (start + 32) = second.drop (start + 32) := by
    apply List.ext_getElem?
    intro i
    rw [List.getElem?_drop, List.getElem?_drop]
    by_contra hOther
    have hInside := window _ hOther
    omega
  intro hSame
  rw [hSplit first, hSplit second, hBefore, hAfter, List.foldl_append, List.foldl_append,
    List.foldl_append, List.foldl_append] at hSame
  have hWindow : (first.drop start).take 32 = (second.drop start).take 32 :=
    eq_of_foldl_feed (by simp [hLength]) (List.length_take_le ..) (foldl_feed_injective _ hSame)
  apply hDiffer
  rw [hSplit first, hSplit second, hBefore, hAfter, hWindow]

/-- A burst changes the checksum, whatever it is started from. -/
theorem Burst.checksumFrom_ne {first second : List UInt8} (burst : Burst first second)
    (seed : UInt32) : checksumFrom seed first ≠ checksumFrom seed second := by
  obtain ⟨start, window⟩ := burst.window
  have hLength : (stream first).length = (stream second).length := by
    rw [length_stream, length_stream, burst.length_eq]
  have hDiffer : stream first ≠ stream second := fun hSame =>
    burst.differ (eq_of_stream burst.length_eq hSame)
  rw [checksumFrom_eq, checksumFrom_eq]
  exact foldl_feed_ne hLength hDiffer window seed

/-- What follows whole words and is the same in both inputs changes nothing. -/
theorem Burst.append {first second : List UInt8} (burst : Burst first second)
    (hWhole : first.length % 4 = 0) (rest : List UInt8) :
    Burst (first ++ rest) (second ++ rest) := by
  obtain ⟨hLength, hDiffer, start, window⟩ := burst
  have hStream (bytes : List UInt8) (hWhole : bytes.length % 4 = 0) :
      stream (bytes ++ rest) = stream bytes ++ stream rest := by
    rw [stream, words_append bytes rest hWhole, List.flatMap_append]
    rfl
  have hBits : (stream first).length = (stream second).length := by
    rw [length_stream, length_stream, hLength]
  refine ⟨by simp [hLength], fun hSame => hDiffer (List.append_cancel_right hSame), start, ?_⟩
  intro i hOther
  apply window i
  intro hSame
  rw [hStream first hWhole, hStream second (hLength ▸ hWhole), List.getElem?_append,
    List.getElem?_append, hSame, hBits] at hOther
  exact hOther rfl

/-- Whatever it starts from, a checksum tells inputs apart that differ within 32 bits in a row. So a
page of the firmware that was altered like this on its way is turned down, and the flash is left
alone. -/
theorem burst_detected :
    (∀ (seed : UInt32) (first second : List UInt8), Burst first second →
      checksumFrom seed first ≠ checksumFrom seed second) ∧
    ∀ (flash : Flash) (page : Page) (altered : Vector UInt8 Layout.pageSize),
      4 ≤ page.index.toNat → page.index.toNat ≤ 47 →
      page.checksum = checksum page.data.toList → Burst page.data.toList altered.toList →
        Bootloader.flashPage flash { page with data := altered } = (.badChecksum, flash) := by
  refine ⟨fun seed first second burst => burst.checksumFrom_ne seed, ?_⟩
  intro flash page altered hLow hHigh hSum burst
  have outcome := Bootloader.outcome_flashPage flash { page with data := altered }
  have hOther : checksum altered.toList ≠ page.checksum := by
    rw [hSum]
    exact (burst.checksumFrom_ne seed).symm
  have hStatus := outcome.badChecksum_iff.mpr ⟨⟨hLow, hHigh⟩, hOther⟩
  exact Prod.ext hStatus (outcome.untouched (.inr hStatus))

/-- The first bytes of a page of zeros, with a bit set in each of the first two words. The checksum
consumes these bits as the first and the last of 32. -/
def damaged : List UInt8 :=
  [0, 0, 0x80, 0, 0, 0, 0, 0x01]

/-- Two bytes on both sides of the border of a word are a burst. -/
theorem burst_damaged : Burst (List.replicate 8 0) damaged where
  length_eq := rfl
  differ := by decide
  window := by
    have hInside : ∀ i, i < 64 → (stream (List.replicate 8 0))[i]? ≠ (stream damaged)[i]? →
        8 ≤ i ∧ i < 8 + 32 := by
      decide +kernel
    refine ⟨8, fun i hOther => ?_⟩
    by_cases hEnd : i < 64
    · exact hInside i hEnd hOther
    · have hFirst : (stream (List.replicate 8 0)).length = 64 := rfl
      have hSecond : (stream damaged).length = 64 := rfl
      rw [List.getElem?_eq_none (by omega), List.getElem?_eq_none (by omega)] at hOther
      exact absurd rfl hOther

def damagedPage : Vector UInt8 Layout.pageSize :=
  ⟨(damaged ++ List.replicate (Layout.pageSize - 8) 0).toArray, by
    rw [List.size_toArray, List.length_append, List.length_replicate]
    rfl⟩

/-- A burst across the border of a word is seen in the checksum, and a page with such a burst is
rejected. -/
theorem burst_detected_across_words :
    Burst (List.replicate 8 0) damaged ∧
      checksumFrom 0 (List.replicate 8 0) ≠ checksumFrom 0 damaged ∧
      Burst Bootloader.zeroPage.data.toList damagedPage.toList ∧
      Bootloader.flashPage Bootloader.stuckFlash
          { Bootloader.zeroPage with data := damagedPage } =
        (.badChecksum, Bootloader.stuckFlash) := by
  have burst : Burst Bootloader.zeroPage.data.toList damagedPage.toList := by
    have hZeros : Bootloader.zeroPage.data.toList =
        List.replicate 8 0 ++ List.replicate (Layout.pageSize - 8) 0 := by
      rw [Bootloader.data_zeroPage, List.replicate_append_replicate]
      rfl
    rw [hZeros]
    exact burst_damaged.append (by decide) _
  refine ⟨burst_damaged, burst_detected.1 0 _ _ burst_damaged, burst, ?_⟩
  exact burst_detected.2 Bootloader.stuckFlash Bootloader.zeroPage damagedPage (by decide)
    (by decide) (congrArg checksum Bootloader.data_zeroPage.symm) burst

end Multidrop.Checksum
