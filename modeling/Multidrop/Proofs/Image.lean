import Multidrop.Host.Image
import Multidrop.Proofs.Field
import Multidrop.Proofs.SelfCheck

/-!
Prepared images. What the host puts into an image is what the node checks: the image is as long as
it says, and its checksum is the one over its bytes with the place of the checksum read as zero. A
flash that holds a prepared image therefore passes the check.
-/

namespace Multidrop

theorem ImageInfo.ofWire_eq (bytes : List UInt8) :
    (ofWire bytes : ImageInfo) =
      ⟨ofWire (bytes.take 4), ofWire ((bytes.drop 4).take 4), ofWire (bytes.drop 8)⟩ :=
  rfl

/-- Reading the place of the checksum as zeros is putting zero there. -/
theorem SelfCheck.masked_eq_put {image : List UInt8}
    (h : ImageInfo.checksumField.offset + ImageInfo.checksumField.size ≤ image.length) :
    masked 0 image = ImageInfo.checksumField.put image 0 := by
  apply List.ext_getElem?
  intro i
  have hSize : ImageInfo.checksumField.size = 4 := rfl
  have hZero : toWire (0 : UInt32) = List.replicate 4 0 := rfl
  rw [masked, List.getElem?_mapIdx, Field.getElem?_put _ h, Nat.zero_add, hZero,
    List.getElem?_replicate]
  by_cases hIn : ImageInfo.checksumField.offset ≤ i ∧
      i < ImageInfo.checksumField.offset + ImageInfo.checksumField.size
  · rw [if_pos hIn, if_pos (by omega), List.getElem?_eq_getElem (by omega)]
    simp only [Option.map_some, if_pos hIn]
  · simp only [if_neg hIn, Option.map_id']

namespace Host.Image

/-- The name in an image: what stands in its place up to the first zero byte, as far as it is
reported and not past the image. -/
def name (image : Image) : List UInt8 :=
  ((image.bytes.drop Layout.nameOffset).take Layout.nameMax).takeWhile (· ≠ 0)

/-- An image is whole pages that fit the firmware region, and says so of itself, with the checksum a
node will compute. -/
structure WellFormed (image : Image) : Prop where
  whole : image.bytes.length % Layout.pageSize = 0
  nonempty : Layout.pageSize ≤ image.bytes.length
  fits : image.bytes.length ≤ Layout.firmwareMaxSize
  size : ImageInfo.sizeField.get? image.bytes = some (UInt32.ofNat image.bytes.length)
  checksum : ImageInfo.checksumField.get? image.bytes =
    some (Multidrop.checksum (ImageInfo.checksumField.put image.bytes 0))

/-- What is padded is whole pages that fit and that nothing is cut from. -/
theorem paddedSize_spec {length : Nat} (hLow : Layout.nameOffset ≤ length)
    (hHigh : length ≤ Layout.firmwareMaxSize) :
    paddedSize length % Layout.pageSize = 0 ∧ Layout.pageSize ≤ paddedSize length ∧
      paddedSize length ≤ Layout.firmwareMaxSize ∧ length ≤ paddedSize length := by
  have hName : Layout.nameOffset = 348 := by decide
  have hMax : Layout.firmwareMaxSize = 45056 := by decide
  simp only [paddedSize, Layout.pageSize, hName, hMax] at *
  omega

/-- What a prepared image is made of. -/
theorem prepare_ok {data : List UInt8} {image : Image} (h : prepare data = .ok image) :
    Layout.nameOffset ≤ data.length ∧ data.length ≤ Layout.firmwareMaxSize ∧
      ∃ zeros cleared : List UInt8, (data ++ zeros).length = paddedSize data.length ∧
        (∀ byte ∈ zeros, byte = 0) ∧
        cleared = ImageInfo.checksumField.put (ImageInfo.sizeField.put (data ++ zeros)
          (UInt32.ofNat (paddedSize data.length))) 0 ∧
        image.bytes = ImageInfo.checksumField.put cleared (Multidrop.checksum cleared) := by
  unfold prepare at h
  split at h
  · cases h
  · split at h
    · cases h
    · next hShort hLong =>
        have hLow := Nat.le_of_not_lt hShort
        have hHigh := Nat.le_of_not_lt hLong
        obtain ⟨_, _, _, hLength⟩ := paddedSize_spec hLow hHigh
        refine ⟨hLow, hHigh, List.replicate (paddedSize data.length - data.length) 0, _, ?_,
          fun _ => List.eq_of_mem_replicate, rfl, ?_⟩
        · rw [List.length_append, List.length_replicate]
          omega
        · rw [← Except.ok.inj h]

/-- A prepared image is as long as the padded file. -/
theorem length_of_prepare {data : List UInt8} {image : Image} (h : prepare data = .ok image) :
    image.bytes.length = paddedSize data.length := by
  obtain ⟨_, _, zeros, cleared, hPadded, _, hCleared, hBytes⟩ := prepare_ok h
  rw [hBytes, hCleared, Field.length_put, Field.length_put, Field.length_put, hPadded]

/-- Every image that is prepared is well-formed. -/
theorem wellFormed_of_prepare {data : List UInt8} {image : Image} (h : prepare data = .ok image) :
    image.WellFormed := by
  obtain ⟨hLow, hHigh, zeros, cleared, hPadded, _, hCleared, hBytes⟩ := prepare_ok h
  obtain ⟨hWhole, hPages, hFits, _⟩ := paddedSize_spec hLow hHigh
  have hSizeField : ImageInfo.sizeField.offset + ImageInfo.sizeField.size ≤
      (data ++ zeros).length := by
    rw [hPadded]
    exact Nat.le_trans (by decide) hPages
  have hSumField : ImageInfo.checksumField.offset + ImageInfo.checksumField.size ≤
      (data ++ zeros).length := by
    rw [hPadded]
    exact Nat.le_trans (by decide) hPages
  have hLength := length_of_prepare h
  refine ⟨?_, ?_, ?_, ?_, ?_⟩
  · rw [hLength]
    exact hWhole
  · rw [hLength]
    exact hPages
  · rw [hLength]
    exact hFits
  · rw [hLength, hBytes, hCleared, Field.put_put, Field.get?_put_of_disjoint _ _
      (by rwa [Field.length_put]) (by rwa [Field.length_put]) (.inr (by decide)),
      Field.get?_put _ hSizeField]
  · rw [hBytes, hCleared, Field.get?_put _ (by rwa [Field.length_put, Field.length_put]),
      Field.put_put, Field.put_put]

/-- Preparing an image does not touch its version. -/
theorem version_of_prepare {data : List UInt8} {image : Image} (h : prepare data = .ok image) :
    ImageInfo.versionField.get? image.bytes = ImageInfo.versionField.get? data := by
  obtain ⟨hLow, hHigh, zeros, cleared, hPadded, _, hCleared, hBytes⟩ := prepare_ok h
  obtain ⟨_, hPages, _, _⟩ := paddedSize_spec hLow hHigh
  rw [← hPadded] at hPages
  have hVersion : ImageInfo.versionField.offset + ImageInfo.versionField.size ≤
      (data ++ zeros).length :=
    Nat.le_trans (by decide) hPages
  have hSize : ImageInfo.sizeField.offset + ImageInfo.sizeField.size ≤ (data ++ zeros).length :=
    Nat.le_trans (by decide) hPages
  have hSum : ImageInfo.checksumField.offset + ImageInfo.checksumField.size ≤
      (data ++ zeros).length :=
    Nat.le_trans (by decide) hPages
  rw [hBytes, hCleared, Field.put_put, Field.get?_put_of_disjoint _ _ (by rwa [Field.length_put])
    (by rwa [Field.length_put]) (.inr (by decide)),
    Field.get?_put_of_disjoint _ _ hSize hVersion (.inr (by decide)),
    Field.get?_append _ (Nat.le_trans (by decide) hLow)]

/-- Images of a size that fits are prepared. -/
theorem prepare_total {data : List UInt8} (hLow : Layout.nameOffset ≤ data.length)
    (hHigh : data.length ≤ Layout.firmwareMaxSize) : ∃ image, prepare data = .ok image := by
  rw [prepare, if_neg (Nat.not_lt.mpr hLow), if_neg (Nat.not_lt.mpr hHigh)]
  exact ⟨_, rfl⟩

namespace WellFormed

variable {image : Image}

/-- The image information lies within the image. -/
theorem inside (formed : image.WellFormed) :
    Layout.infoOffset + Packed.size ImageInfo ≤ image.bytes.length :=
  Nat.le_trans (by decide) formed.nonempty

theorem toNat_size (formed : image.WellFormed) :
    (UInt32.ofNat image.bytes.length).toNat = image.bytes.length := by
  rw [UInt32.toNat_ofNat', Nat.mod_eq_of_lt]
  exact Nat.lt_of_le_of_lt formed.fits (by decide)

/-- An image says how long it is. -/
theorem info_size (formed : image.WellFormed) :
    image.info.size = UInt32.ofNat image.bytes.length := by
  simp only [info, formed.size, Option.getD_some]

/-- The size that an image says is one that a node accepts. -/
theorem sizeFits (formed : image.WellFormed) : image.info.sizeFits = true := by
  have hWhole := formed.whole
  have hLow : Layout.nameOffset ≤ image.bytes.length := Nat.le_trans (by decide) formed.nonempty
  have hWords : image.bytes.length % 4 = 0 := by
    simp only [Layout.pageSize] at hWhole
    omega
  rw [ImageInfo.sizeFits, formed.info_size, formed.toNat_size]
  simp [hLow, formed.fits, hWords]

/-- Fields up to the end of the image information can be got. -/
theorem get?_info {α : Type} [Packed α] (formed : image.WellFormed) (field : Field α)
    (hField : field.offset + field.size ≤ Layout.infoOffset + Packed.size ImageInfo) :
    field.get? image.bytes = some (ofWire ((image.bytes.drop field.offset).take field.size)) :=
  field.get?_of_fits (Nat.le_trans hField formed.inside)

/-- The information an image gives is what stands in its place. -/
theorem ofWire_info (formed : image.WellFormed) :
    ofWire ((image.bytes.drop Layout.infoOffset).take (Packed.size ImageInfo)) = image.info := by
  have hSize : Packed.size ImageInfo = 12 := rfl
  rw [info, formed.get?_info ImageInfo.versionField (by decide),
    formed.get?_info ImageInfo.sizeField (by decide),
    formed.get?_info ImageInfo.checksumField (by decide), ImageInfo.ofWire_eq, hSize,
    List.take_take, List.drop_take, List.take_take, List.drop_drop, List.drop_take, List.drop_drop]
  rfl

end WellFormed

end Host.Image

section Held

variable {image : Host.Image} {flash : Flash}

/-- A flash that gives the bytes of an image passes the check, whatever else it holds. -/
theorem checkFirmware_of_holds (formed : image.WellFormed)
    (holds : flash.Holds SelfCheck.base image.bytes) : checkFirmware flash = .ok image.info := by
  have hSize : image.info.size.toNat = image.bytes.length := by
    rw [formed.info_size, formed.toNat_size]
  have hSum : checksum (SelfCheck.masked 0 image.bytes) = image.info.checksum := by
    rw [SelfCheck.masked_eq_put (Nat.le_trans (by decide) formed.inside), Host.Image.info,
      formed.checksum, Option.getD_some]
  have hComputed : SelfCheck.checksumFrom flash image.info.size.toNat 0 .start =
      .ok ⟨checksum (SelfCheck.masked 0 image.bytes)⟩ := by
    rw [hSize, SelfCheck.checksumFrom_of_holds holds, List.drop_zero, Checksum.update_start]
  rw [checkFirmware_of_checksum (holds Layout.infoOffset (Packed.size ImageInfo) formed.inside)
    formed.ofWire_info formed.sizeFits hComputed, if_pos hSum]

/-- A flash that can be read and holds an image passes the check, whatever else it holds. -/
theorem checkFirmware_of_held (readable : flash.Readable)
    (hBounds : SelfCheck.limit ≤ flash.bytes.size) (formed : image.WellFormed)
    (h : flash.slice SelfCheck.base image.bytes.length = image.bytes) :
    checkFirmware flash = .ok image.info := by
  have hEnd : SelfCheck.base + image.bytes.length ≤ flash.bytes.size :=
    Nat.le_trans (Nat.add_le_add_left formed.fits _) hBounds
  have holds := readable.holds hEnd
  rw [h] at holds
  exact checkFirmware_of_holds formed holds

/-- The name that a node finds is the name of the image. -/
theorem firmwareName_of_held (readable : flash.Readable)
    (hBounds : SelfCheck.limit ≤ flash.bytes.size) (formed : image.WellFormed)
    (h : flash.slice SelfCheck.base image.bytes.length = image.bytes) :
    firmwareName flash image.info = image.name := by
  have hLow : Layout.nameOffset ≤ image.bytes.length := Nat.le_trans (by decide) formed.nonempty
  have hEnd : SelfCheck.base + image.bytes.length ≤ flash.bytes.size :=
    Nat.le_trans (Nat.add_le_add_left formed.fits _) hBounds
  have hTake : flash.slice (SelfCheck.base + Layout.nameOffset)
      (min (image.bytes.length - Layout.nameOffset) Layout.nameMax) =
        (image.bytes.drop Layout.nameOffset).take Layout.nameMax := by
    have hPlace : Layout.nameOffset + min (image.bytes.length - Layout.nameOffset) Layout.nameMax ≤
        image.bytes.length := by
      omega
    rw [← flash.take_drop_slice hPlace, h, List.take_eq_take_iff, List.length_drop]
    omega
  rw [firmwareName, formed.info_size, formed.toNat_size, readable.read (by omega), hTake]
  rfl

end Held

namespace Host.Image

/-- A flash on which an image was installed and nothing else was written. -/
def installed (image : Image) : Flash :=
  { bytes := (List.replicate SelfCheck.base 0xFF ++ (image.bytes ++
      List.replicate (Layout.flashSize - SelfCheck.base - image.bytes.length) 0xFF)).toArray }

variable {image : Image}

theorem size_installed (formed : image.WellFormed) :
    image.installed.bytes.size = Layout.flashSize := by
  have hLimit : SelfCheck.base + Layout.firmwareMaxSize ≤ Layout.flashSize :=
    SelfCheck.limit_le_flashSize
  have hFits := formed.fits
  simp only [installed, List.size_toArray, List.length_append, List.length_replicate]
  omega

/-- A flash with an image holds it where the firmware has to be. -/
theorem slice_installed (image : Image) :
    image.installed.slice SelfCheck.base image.bytes.length = image.bytes := by
  rw [Flash.slice_eq_iff]
  intro i hIn
  have hFront : (List.replicate SelfCheck.base (0xFF : UInt8)).length ≤ SelfCheck.base + i := by
    rw [List.length_replicate]
    exact Nat.le_add_right ..
  rw [installed, List.getElem?_toArray, List.getElem?_append_right hFront, List.length_replicate,
    Nat.add_sub_cancel_left, List.getElem?_append_left hIn]

theorem holds_installed (formed : image.WellFormed) :
    image.installed.Holds SelfCheck.base image.bytes := by
  have readable : image.installed.Readable := fun _ hMem => by cases hMem
  have hEnd : SelfCheck.base + image.bytes.length ≤ image.installed.bytes.size := by
    rw [size_installed formed]
    exact Nat.le_trans (Nat.add_le_add_left formed.fits _) SelfCheck.limit_le_flashSize
  have holds := readable.holds hEnd
  rwa [slice_installed] at holds

/-- A flash with an image passes the check of a node. -/
theorem checkFirmware_installed (formed : image.WellFormed) :
    checkFirmware image.installed = .ok image.info :=
  checkFirmware_of_holds formed (holds_installed formed)

end Host.Image

end Multidrop
