import Multidrop.Proofs.Bootloader.Page
import Multidrop.Proofs.Host.Transmission
import Multidrop.Proofs.Image

/-!
Preparing and checking agree. Whatever fits is prepared: all of it is kept but for what the image
says about itself, the pages follow each other from the first page of the firmware on, and a node
that reads the image from its flash finds nothing wrong with it.
-/

namespace Multidrop

/-- Slices of equal size, put together again. -/
theorem flatten_slices (bytes : List UInt8) (size count : Nat) :
    ((List.range count).map fun i => (bytes.drop (i * size)).take size).flatten =
      bytes.take (count * size) := by
  induction count with
  | zero => rw [Nat.zero_mul, List.take_zero]; rfl
  | succ count ih =>
      rw [List.range_succ, List.map_append, List.flatten_append, ih, List.map_singleton,
        List.flatten_singleton, Nat.succ_mul, List.take_add]

namespace Host.Image

theorem paddedSize_of_whole {length : Nat} (h : length % Layout.pageSize = 0) :
    paddedSize length = length := by
  simp only [paddedSize, Layout.pageSize] at *
  omega

/-- Preparing a well-formed image again changes nothing. -/
theorem WellFormed.prepare_eq {image : Image} (formed : image.WellFormed) :
    prepare image.bytes = .ok image := by
  have hLow : ¬image.bytes.length < Layout.nameOffset :=
    Nat.not_lt.mpr (Nat.le_trans (by decide) formed.nonempty)
  rw [prepare, if_neg hLow, if_neg (Nat.not_lt.mpr formed.fits)]
  simp only [paddedSize_of_whole formed.whole, Nat.sub_self, List.replicate_zero, List.append_nil,
    Field.put_of_get? _ formed.size, Field.put_put, Field.put_of_get? _ formed.checksum]

section Pages

variable {image : Image}

/-- The pages of an image are numbered through from the first one of the firmware. -/
theorem index_pages (fits : image.bytes.length ≤ Layout.firmwareMaxSize) :
    image.pages.map (·.1.toNat) =
      List.range' Layout.firmwareStartPage (image.bytes.length / Layout.pageSize) := by
  rw [pages, List.map_map, List.range'_eq_map_range]
  refine List.map_congr_left fun i hMem => ?_
  rw [List.mem_range] at hMem
  have hStart : Layout.firmwareStartPage = 4 := by decide
  have hMax : Layout.firmwareMaxSize = 45056 := by decide
  have hSmall : Layout.firmwareStartPage + i < 2 ^ 16 := by
    simp only [Layout.pageSize] at hMem
    omega
  exact UInt16.toNat_ofNat_of_lt' hSmall

/-- The pages of an image are pages that a bootloader may overwrite. -/
theorem isFirmwarePage_of_mem_pages (fits : image.bytes.length ≤ Layout.firmwareMaxSize)
    {page : UInt16 × List UInt8} (h : page ∈ image.pages) :
    Layout.isFirmwarePage page.1 = true := by
  have hIndex : page.1.toNat ∈ image.pages.map (·.1.toNat) :=
    List.mem_map_of_mem (f := (·.1.toNat)) h
  have hStart : Layout.firmwareStartPage = 4 := by decide
  have hMax : Layout.firmwareMaxSize = 45056 := by decide
  rw [index_pages fits, List.mem_range'_1] at hIndex
  rw [Layout.isFirmwarePage_iff, SelfCheck.base_eq, SelfCheck.limit_eq, Layout.pageOffset]
  simp only [Layout.pageSize] at hIndex ⊢
  omega

/-- The pages of an image are its bytes. -/
theorem flatten_pages (whole : image.bytes.length % Layout.pageSize = 0) :
    (image.pages.map Prod.snd).flatten = image.bytes := by
  have hAll : image.bytes.length / Layout.pageSize * Layout.pageSize = image.bytes.length := by
    simp only [Layout.pageSize] at *
    omega
  rw [pages, List.map_map]
  refine (flatten_slices image.bytes Layout.pageSize _).trans ?_
  rw [hAll, List.take_length]

end Pages

/-- What becomes of the contents of a file in an image, and of the image on its way to a node. -/
structure Prepared (data : List UInt8) (image : Image) : Prop where
  whole : image.bytes.length % Layout.pageSize = 0
  /-- There are no more pages than hold the data. -/
  rounded : data.length ≤ image.bytes.length ∧
    image.bytes.length < data.length + Layout.pageSize
  kept : ∀ i, i < data.length → ¬ImageInfo.sizeField.Covers i → ¬ImageInfo.checksumField.Covers i →
    image.bytes[i]? = data[i]?
  padding : ∀ i, data.length ≤ i → i < image.bytes.length → image.bytes[i]? = some 0
  size : image.info.size.toNat = image.bytes.length
  version : ImageInfo.versionField.get? data = some image.info.version
  index : image.pages.map (·.1.toNat) =
    List.range' Layout.firmwareStartPage (image.bytes.length / Layout.pageSize)
  allowed : ∀ page ∈ image.pages, Layout.isFirmwarePage page.1 = true
  slices : ∀ page ∈ image.pages, page.2.length = Layout.pageSize
  together : (image.pages.map Prod.snd).flatten = image.bytes
  again : prepare image.bytes = .ok image
  checked : ∀ flash : Flash, flash.Holds SelfCheck.base image.bytes →
    checkFirmware flash = .ok image.info

/-- Byte by byte, an image is the data with zeros after it, but for its size and its checksum. -/
theorem getElem?_prepared {data : List UInt8} {image : Image} (h : prepare data = .ok image)
    {i : Nat} (hSize : ¬ImageInfo.sizeField.Covers i) (hSum : ¬ImageInfo.checksumField.Covers i)
    (hIn : i < image.bytes.length) :
    image.bytes[i]? = if i < data.length then data[i]? else some 0 := by
  obtain ⟨hLow, hHigh, zeros, cleared, hPadded, hZeros, hCleared, hBytes⟩ := prepare_ok h
  rw [hBytes, hCleared, Field.put_put, Field.length_put, Field.length_put] at hIn
  rw [hBytes, hCleared, Field.put_put, Field.getElem?_put_outside _ hSum,
    Field.getElem?_put_outside _ hSize]
  split
  case isTrue hData => exact List.getElem?_append_left hData
  case isFalse hZero =>
    rw [List.getElem?_eq_getElem hIn, List.getElem_append_right (Nat.le_of_not_lt hZero)]
    exact congrArg some (hZeros _ (List.getElem_mem _))

/-- A prepared image says of itself the version that the file says. -/
theorem version_info_of_prepare {data : List UInt8} {image : Image}
    (h : prepare data = .ok image) :
    ImageInfo.versionField.get? data = some image.info.version := by
  have hPlace := (wellFormed_of_prepare h).get?_info ImageInfo.versionField (by decide)
  rw [info, hPlace, Option.getD_some, ← hPlace, version_of_prepare h]

/-- What an image says about itself stands before its name. -/
theorem not_covers_of_nameOffset_le {i : Nat} (h : Layout.nameOffset ≤ i) :
    ¬ImageInfo.sizeField.Covers i ∧ ¬ImageInfo.checksumField.Covers i := by
  have hSize : ImageInfo.sizeField.offset + ImageInfo.sizeField.size ≤ Layout.nameOffset := by
    decide
  have hSum : ImageInfo.checksumField.offset + ImageInfo.checksumField.size ≤
      Layout.nameOffset := by
    decide
  rw [Field.Covers, Field.Covers]
  omega

/-- The name in an image is the name in the file that it was made of. -/
theorem name_of_prepare {data : List UInt8} {image : Image} (h : prepare data = .ok image) :
    image.name = ((data.drop Layout.nameOffset).take Layout.nameMax).takeWhile (· ≠ 0) := by
  have hZeros : image.bytes.drop Layout.nameOffset = data.drop Layout.nameOffset ++
      List.replicate (image.bytes.length - data.length) 0 := by
    obtain ⟨hLow, hHigh, _⟩ := prepare_ok h
    have hLong : data.length ≤ image.bytes.length := by
      rw [length_of_prepare h]
      exact (paddedSize_spec hLow hHigh).2.2.2
    apply List.ext_getElem?
    intro i
    rw [List.getElem?_drop, List.getElem?_append, List.getElem?_drop, List.length_drop,
      List.getElem?_replicate]
    by_cases hIn : Layout.nameOffset + i < image.bytes.length
    · obtain ⟨hSize, hSum⟩ := not_covers_of_nameOffset_le (Nat.le_add_right Layout.nameOffset i)
      have hData : Layout.nameOffset + i < data.length ↔ i < data.length - Layout.nameOffset := by
        omega
      rw [getElem?_prepared h hSize hSum hIn]
      simp only [hData]
      split
      · rfl
      · rw [if_pos (by omega)]
    · rw [List.getElem?_eq_none (Nat.le_of_not_lt hIn), if_neg (by omega), if_neg (by omega)]
  rw [name, hZeros, List.take_append, List.take_replicate, List.takeWhile_append]
  split
  · next hAll =>
      rw [List.takeWhile_replicate, if_neg (by decide), List.append_nil]
      exact ((List.takeWhile_prefix _).eq_of_length hAll).symm
  · rfl

/-- Whatever is prepared is as it should be. -/
theorem prepared_of_prepare {data : List UInt8} {image : Image} (h : prepare data = .ok image) :
    Prepared data image := by
  obtain ⟨hLow, hHigh, _⟩ := prepare_ok h
  have formed := wellFormed_of_prepare h
  have hLength := length_of_prepare h
  refine ⟨formed.whole, ?_, ?_, ?_, ?_, version_info_of_prepare h, index_pages formed.fits,
    fun page => isFirmwarePage_of_mem_pages formed.fits, fun page => length_of_mem_pages,
    flatten_pages formed.whole, formed.prepare_eq, fun flash => checkFirmware_of_holds formed⟩
  · rw [hLength, paddedSize]
    simp only [Layout.pageSize]
    omega
  · intro i hData hSize hSum
    have hIn : i < image.bytes.length := by
      rw [hLength]
      exact Nat.lt_of_lt_of_le hData (paddedSize_spec hLow hHigh).2.2.2
    rw [getElem?_prepared h hSize hSum hIn, if_pos hData]
  · intro i hPadding hIn
    obtain ⟨hSize, hSum⟩ := not_covers_of_nameOffset_le (Nat.le_trans hLow hPadding)
    rw [getElem?_prepared h hSize hSum hIn, if_neg (Nat.not_lt.mpr hPadding)]
  · rw [formed.info_size, formed.toNat_size]

/-- Data is prepared if and only if it fits, and what is prepared is what a node accepts. -/
theorem prepare_agrees (data : List UInt8) :
    ((∃ image, prepare data = .ok image) ↔
        Layout.nameOffset ≤ data.length ∧ data.length ≤ Layout.firmwareMaxSize) ∧
      ∀ image, prepare data = .ok image → Prepared data image := by
  refine ⟨⟨?_, fun ⟨hLow, hHigh⟩ => prepare_total hLow hHigh⟩, fun _ => prepared_of_prepare⟩
  rintro ⟨image, h⟩
  obtain ⟨hLow, hHigh, _⟩ := prepare_ok h
  exact ⟨hLow, hHigh⟩

/-- Data that ends in the second of two pages, with bits set where the image speaks of itself. -/
theorem prepare_agrees_two_pages :
    ∃ image, prepare (List.replicate 1500 0xA5) = .ok image ∧ image.bytes.length = 2048 ∧
      image.bytes[1499]? = some 0xA5 ∧ image.bytes[1500]? = some 0 ∧
      image.info.version = 0xA5A5A5A5 ∧ image.info.size.toNat = 2048 ∧
      image.pages.map (·.1.toNat) = [4, 5] ∧ checkFirmware image.installed = .ok image.info := by
  have hData : (List.replicate 1500 (0xA5 : UInt8)).length = 1500 := List.length_replicate
  obtain ⟨hIff, hPrepared⟩ := prepare_agrees (List.replicate 1500 0xA5)
  obtain ⟨image, h⟩ := hIff.mpr (by rw [hData]; decide)
  have prepared := hPrepared image h
  have hLength : image.bytes.length = 2048 := by
    have hWhole := prepared.whole
    have hRounded := prepared.rounded
    rw [hData] at hRounded
    simp only [Layout.pageSize] at hWhole hRounded
    omega
  have hLast := prepared.kept 1499 (by rw [hData]; decide) (by decide) (by decide)
  have hPadding := prepared.padding 1500 (Nat.le_of_eq hData) (by rw [hLength]; decide)
  have hVersion := prepared.version
  rw [Field.get?_of_fits _ (by rw [hData]; decide), List.drop_replicate, List.take_replicate]
    at hVersion
  have hIndex := prepared.index
  rw [hLength] at hIndex
  refine ⟨image, h, hLength, ?_, hPadding, ?_, prepared.size.trans hLength, hIndex,
    prepared.checked _ (holds_installed (wellFormed_of_prepare h))⟩
  · rw [hLast, List.getElem?_replicate_of_lt (by decide)]
  · rw [← Option.some.inj hVersion]
    decide

end Host.Image

end Multidrop
