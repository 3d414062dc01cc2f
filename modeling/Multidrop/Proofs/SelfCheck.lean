import Multidrop.Node.SelfCheck
import Multidrop.Proofs.Checksum
import Multidrop.Proofs.Flash.Read

/-!
The check of a flashed firmware. It reads nothing outside the firmware region, and over a flash that
can be read its chunks add up to one checksum over the whole image.
-/

namespace Multidrop

namespace SelfCheck

/-- The offset right after the firmware region. -/
def limit : Nat := base + Layout.firmwareMaxSize

theorem base_eq : base = 4 * Layout.pageSize := by decide

theorem limit_eq : limit = 48 * Layout.pageSize := by decide

theorem limit_le_flashSize : limit ≤ Layout.flashSize := by decide

@[simp] theorem length_masked (offset : Nat) (bytes : List UInt8) :
    (masked offset bytes).length = bytes.length :=
  List.length_mapIdx

/-- The checksum field can be masked piece by piece. -/
theorem masked_append (offset : Nat) (first second : List UInt8) :
    masked offset (first ++ second) =
      masked offset first ++ masked (offset + first.length) second := by
  unfold masked
  rw [List.mapIdx_append]
  congr 2
  funext i byte
  have hPlace : offset + (i + first.length) = offset + first.length + i := by omega
  rw [hPlace]

theorem update_masked_nil (checksum : Checksum) (offset : Nat) :
    checksum.update (masked offset []) = checksum := by
  simp [masked, Checksum.update, words]

/-- Bytes of an image can be cut anywhere between two words, and where they end. -/
theorem update_masked_append (checksum : Checksum) (offset : Nat) {first rest : List UInt8}
    (h : first.length % 4 = 0 ∨ rest = []) :
    checksum.update (masked offset (first ++ rest)) =
      (checksum.update (masked offset first)).update (masked (offset + first.length) rest) := by
  rcases h with hWhole | rfl
  · rw [masked_append, Checksum.update_append _ _ _ (by rw [length_masked, hWhole])]
  · rw [update_masked_nil, List.append_nil]

/-- While there is more of the image, one more piece is read and counted. -/
theorem checksumFrom_of_lt {flash : Flash} {size offset : Nat} (h : offset < size)
    (checksum : Checksum) :
    checksumFrom flash size offset checksum =
      match flash.read (base + offset) (min (size - offset) chunk) with
      | .error error => .error error
      | .ok bytes =>
        checksumFrom flash size (offset + min (size - offset) chunk)
          (checksum.update (masked offset bytes)) := by
  rw [checksumFrom]
  exact if_pos h

/-- At its end the checksum is complete. -/
theorem checksumFrom_of_le {flash : Flash} {size offset : Nat} (h : ¬offset < size)
    (checksum : Checksum) : checksumFrom flash size offset checksum = .ok checksum := by
  rw [checksumFrom, if_neg h]

/-- Read in chunks or in one piece, the checksum of an image is the same. -/
theorem checksumFrom_of_holds {flash : Flash} {image : List UInt8} (holds : flash.Holds base image)
    (offset : Nat) (checksum : Checksum) :
    checksumFrom flash image.length offset checksum =
      .ok (checksum.update (masked offset (image.drop offset))) := by
  induction offset, checksum using checksumFrom.induct flash image.length with
  | case1 offset checksum hMore length error hRead =>
      have hFits : offset + length ≤ image.length := by omega
      rw [holds offset length hFits] at hRead
      cases hRead
  | case2 offset checksum hMore length bytes hRead ih =>
      have hFits : offset + length ≤ image.length := by omega
      have hBytes : bytes.length = length := Flash.length_of_read hRead
      have hRest : image.drop offset = bytes ++ image.drop (offset + length) := by
        rw [holds offset length hFits] at hRead
        rw [← Except.ok.inj hRead, ← List.drop_drop, List.take_append_drop]
      rw [checksumFrom_of_lt hMore, hRead]
      -- Only the last chunk may end inside a word, and nothing follows it.
      have hCut : bytes.length % 4 = 0 ∨ image.drop (offset + length) = [] := by
        have hChunk : length = min (image.length - offset) 64 := rfl
        rw [List.drop_eq_nil_iff, hBytes]
        omega
      refine ih.trans ?_
      rw [hRest, update_masked_append _ _ hCut, hBytes]
  | case3 offset checksum hDone =>
      rw [checksumFrom_of_le hDone, List.drop_eq_nil_of_le (Nat.le_of_not_lt hDone),
        update_masked_nil]

/-- The checksum depends on nothing but the image. -/
theorem checksumFrom_congr {first second : Flash} (hFaults : first.faults = second.faults)
    (hSize : first.bytes.size = second.bytes.size) {size offset : Nat}
    (h : ∀ i, base ≤ i → i < base + size → first.bytes[i]? = second.bytes[i]?)
    (checksum : Checksum) :
    checksumFrom first size offset checksum = checksumFrom second size offset checksum := by
  have hRead : ∀ offset length, offset + length ≤ size →
      first.read (base + offset) length = second.read (base + offset) length :=
    fun offset length hFits => Flash.read_congr hFaults hSize fun i hStart hStop =>
      h i (by omega) (by omega)
  induction offset, checksum using checksumFrom.induct second size with
  | case1 offset checksum hMore length error hError =>
      rw [checksumFrom_of_lt hMore, checksumFrom_of_lt hMore, hRead _ _ (by omega), hError]
  | case2 offset checksum hMore length bytes hBytes ih =>
      rw [checksumFrom_of_lt hMore, checksumFrom_of_lt hMore, hRead _ _ (by omega), hBytes]
      exact ih
  | case3 offset checksum hDone =>
      rw [checksumFrom_of_le hDone, checksumFrom_of_le hDone]

/-- A checksum that was once computed is computed wherever the same bytes can be read. -/
theorem checksumFrom_of_ok {first second : Flash} (readable : second.Readable)
    (hSize : first.bytes.size = second.bytes.size) {size offset : Nat}
    (h : ∀ i, base ≤ i → i < base + size → first.bytes[i]? = second.bytes[i]?)
    {checksum result : Checksum} (hOk : checksumFrom first size offset checksum = .ok result) :
    checksumFrom second size offset checksum = .ok result := by
  induction offset, checksum using checksumFrom.induct first size with
  | case1 offset checksum hMore length error hError =>
      rw [checksumFrom_of_lt hMore, hError] at hOk
      cases hOk
  | case2 offset checksum hMore length bytes hBytes ih =>
      have hRead := readable.read_of_ok hSize (fun i _ _ => h i (by omega) (by omega)) hBytes
      rw [checksumFrom_of_lt hMore, hBytes] at hOk
      rw [checksumFrom_of_lt hMore, hRead]
      exact ih hOk
  | case3 offset checksum hDone =>
      rw [checksumFrom_of_le hDone] at hOk ⊢
      exact hOk

/-- What was checked to the end lies in flash. -/
theorem inside_of_ok {flash : Flash} {size offset : Nat} {checksum result : Checksum}
    (hMore : offset < size) (hOk : checksumFrom flash size offset checksum = .ok result) :
    base + size ≤ flash.bytes.size := by
  induction offset, checksum using checksumFrom.induct flash size with
  | case1 offset checksum hMore length error hError =>
      rw [checksumFrom_of_lt hMore, hError] at hOk
      cases hOk
  | case2 offset checksum hMore length bytes hBytes ih =>
      rw [checksumFrom_of_lt hMore, hBytes] at hOk
      by_cases hRest : offset + length < size
      · exact ih hRest hOk
      · have hInside := (Flash.slice_of_read hBytes).1
        omega
  | case3 offset checksum hDone => exact absurd hMore hDone

end SelfCheck

/-- What the image in a flash says about itself, whatever stands there. -/
def Flash.imageInfo (flash : Flash) : ImageInfo :=
  ofWire (flash.slice (SelfCheck.base + Layout.infoOffset) (Packed.size ImageInfo))

/-- The checksum over the image in a flash, its own place counting as zeros. -/
def Flash.imageChecksum (flash : Flash) (size : Nat) : UInt32 :=
  checksum (SelfCheck.masked 0 (flash.slice SelfCheck.base size))

/-- An image of an allowed size fits into the flash of the firmware. -/
theorem ImageInfo.size_le_of_fits {info : ImageInfo} (h : info.sizeFits) :
    info.size.toNat ≤ Layout.firmwareMaxSize := by
  simp only [sizeFits, Bool.and_eq_true, decide_eq_true_eq] at h
  exact h.1.2

/-- It reaches up to the name at least. -/
theorem ImageInfo.nameOffset_le_of_fits {info : ImageInfo} (h : info.sizeFits) :
    Layout.nameOffset ≤ info.size.toNat := by
  simp only [sizeFits, Bool.and_eq_true, decide_eq_true_eq] at h
  exact h.1.1

/-- With a header that can be read, the size and the checksum decide. -/
theorem checkFirmware_of_read {flash : Flash} {bytes : List UInt8} {info : ImageInfo}
    (hRead : flash.read (SelfCheck.base + Layout.infoOffset) (Packed.size ImageInfo) = .ok bytes)
    (hInfo : ofWire bytes = info) :
    checkFirmware flash =
      if info.sizeFits then
        match SelfCheck.checksumFrom flash info.size.toNat 0 .start with
        | .error error => .error (.flash error)
        | .ok checksum =>
          if checksum.value = info.checksum then .ok info
          else .error (.checksum info.checksum checksum.value)
      else .error (.size info.size) := by
  subst hInfo
  rewrite [checkFirmware, hRead]
  rfl

/-- An image that passed the check has a size that it may have, and all of it was read. -/
theorem passed_of_ok {flash : Flash} {info : ImageInfo} (h : checkFirmware flash = .ok info) :
    info.sizeFits = true ∧
      ∃ checksum, SelfCheck.checksumFrom flash info.size.toNat 0 .start = .ok checksum := by
  cases hRead : flash.read (SelfCheck.base + Layout.infoOffset) (Packed.size ImageInfo) with
  | error error =>
      rw [checkFirmware, hRead] at h
      cases h
  | ok bytes =>
      rw [checkFirmware_of_read hRead rfl] at h
      split at h
      case isFalse => cases h
      case isTrue hFits =>
          split at h
          · cases h
          · next checksum hSum =>
              split at h <;> cases h
              exact ⟨hFits, checksum, hSum⟩

/-- An image that is valid has an allowed size. -/
theorem sizeFits_of_ok {flash : Flash} {info : ImageInfo} (h : checkFirmware flash = .ok info) :
    info.sizeFits = true :=
  (passed_of_ok h).1

/-- With an allowed size and an image that can be read, the checksum decides. -/
theorem checkFirmware_of_checksum {flash : Flash} {bytes : List UInt8} {info : ImageInfo}
    {computed : UInt32}
    (hRead : flash.read (SelfCheck.base + Layout.infoOffset) (Packed.size ImageInfo) = .ok bytes)
    (hInfo : ofWire bytes = info) (hFits : info.sizeFits = true)
    (hSum : SelfCheck.checksumFrom flash info.size.toNat 0 .start = .ok ⟨computed⟩) :
    checkFirmware flash =
      if computed = info.checksum then .ok info
      else .error (.checksum info.checksum computed) := by
  rw [checkFirmware_of_read hRead hInfo, if_pos hFits, hSum]

/-- Over a flash that can be read, the check looks at the size and then at the checksum. -/
theorem checkFirmware_eq {flash : Flash} (readable : flash.Readable)
    (hBounds : SelfCheck.limit ≤ flash.bytes.size) {info : ImageInfo}
    (hInfo : flash.imageInfo = info) :
    checkFirmware flash =
      if info.sizeFits then
        if flash.imageChecksum info.size.toNat = info.checksum then .ok info
        else .error (.checksum info.checksum (flash.imageChecksum info.size.toNat))
      else .error (.size info.size) := by
  have hInside : SelfCheck.base + Layout.infoOffset + Packed.size ImageInfo ≤ flash.bytes.size :=
    Nat.le_trans (by decide) hBounds
  have hRead := readable.read hInside
  by_cases hFits : info.sizeFits = true
  · have hImage : SelfCheck.base + info.size.toNat ≤ flash.bytes.size :=
      Nat.le_trans (Nat.add_le_add_left (ImageInfo.size_le_of_fits hFits) _) hBounds
    have hSum : SelfCheck.checksumFrom flash info.size.toNat 0 .start =
        .ok ⟨flash.imageChecksum info.size.toNat⟩ := by
      have hSum := SelfCheck.checksumFrom_of_holds (readable.holds hImage) 0 .start
      rwa [flash.length_slice hImage, List.drop_zero, Checksum.update_start] at hSum
    rw [if_pos hFits]
    exact checkFirmware_of_checksum hRead hInfo hFits hSum
  · rw [if_neg hFits, checkFirmware_of_read hRead hInfo, if_neg hFits]

/-- Where the first page is erased no firmware passes the check. -/
theorem checkFirmware_of_blank {flash : Flash} (readable : flash.Readable)
    (hBounds : SelfCheck.limit ≤ flash.bytes.size)
    (blank : flash.Blank SelfCheck.base (SelfCheck.base + Layout.pageSize)) :
    checkFirmware flash = .error (.size 0xFFFFFFFF) := by
  have hPlace : SelfCheck.base + Layout.infoOffset + Packed.size ImageInfo ≤
      SelfCheck.base + Layout.pageSize := by
    rw [Nat.add_assoc]
    exact Nat.add_le_add_left (by decide) _
  have hInfo : flash.imageInfo = ⟨0xFFFFFFFF, 0xFFFFFFFF, 0xFFFFFFFF⟩ := by
    rw [Flash.imageInfo, blank.slice (Nat.le_add_right ..) hPlace]
    decide
  rw [checkFirmware_eq readable hBounds hInfo, if_neg (by decide)]

/-- The check depends on the firmware region and on the defects alone. -/
theorem checkFirmware_congr {first second : Flash} (hFaults : first.faults = second.faults)
    (hSize : first.bytes.size = second.bytes.size)
    (h : ∀ i, SelfCheck.base ≤ i → i < SelfCheck.limit → first.bytes[i]? = second.bytes[i]?) :
    checkFirmware first = checkFirmware second := by
  have hRead : first.read (SelfCheck.base + Layout.infoOffset) (Packed.size ImageInfo) =
      second.read (SelfCheck.base + Layout.infoOffset) (Packed.size ImageInfo) := by
    refine Flash.read_congr hFaults hSize fun i hStart hStop => h i (by omega) ?_
    exact Nat.lt_of_lt_of_le hStop (by decide)
  rw [checkFirmware, checkFirmware, hRead]
  split
  · rfl
  · dsimp only
    split
    case isTrue hFits =>
      rw [SelfCheck.checksumFrom_congr hFaults hSize fun i hStart hStop => h i hStart ?_]
      have := ImageInfo.size_le_of_fits hFits
      simp only [SelfCheck.limit]
      omega
    case isFalse => rfl

/-- An image that passed its check passes it wherever it can be read. -/
theorem checkFirmware_of_ok {first second : Flash} (readable : second.Readable)
    (hSize : first.bytes.size = second.bytes.size)
    (h : ∀ i, SelfCheck.base ≤ i → i < SelfCheck.limit → first.bytes[i]? = second.bytes[i]?)
    {info : ImageInfo} (hOk : checkFirmware first = .ok info) :
    checkFirmware second = .ok info := by
  have hSame : ∀ i, SelfCheck.base + Layout.infoOffset ≤ i →
      i < SelfCheck.base + Layout.infoOffset + Packed.size ImageInfo →
        first.bytes[i]? = second.bytes[i]? :=
    fun i hStart hStop => h i (by omega) (Nat.lt_of_lt_of_le hStop (by decide))
  cases hFirst : first.read (SelfCheck.base + Layout.infoOffset) (Packed.size ImageInfo) with
  | error error =>
      rw [checkFirmware, hFirst] at hOk
      cases hOk
  | ok bytes =>
      rw [checkFirmware_of_read hFirst rfl] at hOk
      rw [checkFirmware_of_read (readable.read_of_ok hSize hSame hFirst) rfl]
      generalize (ofWire bytes : ImageInfo) = found at hOk ⊢
      split at hOk
      case isFalse => cases hOk
      case isTrue hFits =>
          rw [if_pos hFits]
          cases hSum : SelfCheck.checksumFrom first found.size.toNat 0 .start with
          | error error =>
              rw [hSum] at hOk
              cases hOk
          | ok sum =>
              have hBound := ImageInfo.size_le_of_fits hFits
              rw [hSum] at hOk
              rw [SelfCheck.checksumFrom_of_ok readable hSize (fun i hStart hStop => h i hStart ?_)
                hSum]
              · exact hOk
              · simp only [SelfCheck.limit]
                omega

/-- A name is cut at its longest length. -/
theorem length_firmwareName (flash : Flash) (info : ImageInfo) :
    (firmwareName flash info).length ≤ Layout.nameMax := by
  unfold firmwareName
  dsimp only
  split
  · next bytes hRead =>
      have hShort := (List.takeWhile_prefix (l := bytes) (· ≠ 0)).length_le
      rw [Flash.length_of_read hRead] at hShort
      exact Nat.le_trans hShort (Nat.min_le_right ..)
  · exact Nat.zero_le _

/-- The name of an image that passed the check lies in flash as the image does. -/
theorem firmwareName_of_ok {flash : Flash} (readable : flash.Readable) {info : ImageInfo}
    (h : checkFirmware flash = .ok info) :
    firmwareName flash info =
      (flash.slice (SelfCheck.base + Layout.nameOffset)
        (min (info.size.toNat - Layout.nameOffset) Layout.nameMax)).takeWhile (· ≠ 0) := by
  obtain ⟨hFits, checksum, hSum⟩ := passed_of_ok h
  have hLow := ImageInfo.nameOffset_le_of_fits hFits
  have hInside := SelfCheck.inside_of_ok (Nat.lt_of_lt_of_le (by decide) hLow) hSum
  rw [firmwareName, readable.read (by omega)]

/-- The name depends on nothing but the flash of the firmware. -/
theorem firmwareName_congr {first second : Flash} (hFaults : first.faults = second.faults)
    (hSize : first.bytes.size = second.bytes.size)
    (h : ∀ i, SelfCheck.base ≤ i → i < SelfCheck.limit → first.bytes[i]? = second.bytes[i]?)
    (info : ImageInfo) : firmwareName first info = firmwareName second info := by
  rw [firmwareName, firmwareName, Flash.read_congr hFaults hSize fun i hStart hStop =>
    h i (by omega) ?_]
  have hMax : Layout.nameMax = 64 := rfl
  have hPlace : SelfCheck.base + Layout.nameOffset + 64 ≤ SelfCheck.limit := by decide
  omega

end Multidrop
