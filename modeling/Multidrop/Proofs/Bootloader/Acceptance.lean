import Multidrop.Proofs.Bootloader.Execution
import Multidrop.Proofs.Image

/-!
Which firmware is accepted. The check is followed read by read: as long as reads succeed, the chunks
add up to the checksum over the whole image in one piece, and a read that fails is the last one.
-/

namespace Multidrop

namespace SelfCheck

/-- The checksum of the image from an offset up to its size, with the reads made for it. -/
def checksumTraced (flash : Flash) (size offset : Nat) (checksum : Checksum) :
    Except FlashError Checksum × List Reading :=
  if offset < size then
    let reading : Reading := ⟨base + offset, min (size - offset) chunk⟩
    match reading.perform flash with
    | .error error => (.error error, [reading])
    | .ok bytes =>
      let (result, readings) :=
        checksumTraced flash size (offset + reading.length)
          (checksum.update (masked offset bytes))
      (result, reading :: readings)
  else (.ok checksum, [])
termination_by size - offset
decreasing_by
  simp only [chunk]
  omega

variable {flash : Flash} {size offset : Nat}

/-- A piece that cannot be read is the last one that is asked for. -/
theorem checksumTraced_of_error (h : offset < size) (checksum : Checksum) {error : FlashError}
    (hRead : flash.read (base + offset) (min (size - offset) chunk) = .error error) :
    checksumTraced flash size offset checksum =
      (.error error, [⟨base + offset, min (size - offset) chunk⟩]) := by
  rw [checksumTraced, if_pos h]
  simp only [Reading.perform, hRead]

theorem checksumTraced_of_ok (h : offset < size) (checksum : Checksum) {bytes : List UInt8}
    (hRead : flash.read (base + offset) (min (size - offset) chunk) = .ok bytes) :
    checksumTraced flash size offset checksum =
      ((checksumTraced flash size (offset + min (size - offset) chunk)
          (checksum.update (masked offset bytes))).1,
        ⟨base + offset, min (size - offset) chunk⟩ ::
          (checksumTraced flash size (offset + min (size - offset) chunk)
            (checksum.update (masked offset bytes))).2) := by
  rw [checksumTraced, if_pos h]
  simp only [Reading.perform, hRead]

theorem checksumTraced_of_le (h : ¬offset < size) (checksum : Checksum) :
    checksumTraced flash size offset checksum = (.ok checksum, []) := by
  rw [checksumTraced, if_neg h]

/-- Noting the reads changes nothing, and tells how they went. -/
theorem checksumTraced_spec (flash : Flash) (size offset : Nat) (checksum : Checksum) :
    (checksumTraced flash size offset checksum).1 = checksumFrom flash size offset checksum ∧
      Reading.Explain flash (checksumTraced flash size offset checksum).2
        (checksumTraced flash size offset checksum).1 := by
  induction offset, checksum using checksumFrom.induct flash size with
  | case1 offset checksum hMore length error hError =>
      rw [checksumTraced_of_error hMore checksum hError, checksumFrom_of_lt hMore, hError]
      exact ⟨rfl, Reading.lastFails_single hError⟩
  | case2 offset checksum hMore length bytes hBytes ih =>
      rw [checksumTraced_of_ok hMore checksum hBytes, checksumFrom_of_lt hMore, hBytes]
      exact ⟨ih.1, ih.2.cons hBytes⟩
  | case3 offset checksum hDone =>
      rw [checksumTraced_of_le hDone, checksumFrom_of_le hDone]
      exact ⟨rfl, by simp [Reading.Explain, Reading.AllSucceed]⟩

/-- The reads lie inside the image, and there is at most one for each chunk. -/
theorem checksumTraced_inside (flash : Flash) (size offset : Nat) (checksum : Checksum) :
    (∀ reading ∈ (checksumTraced flash size offset checksum).2,
      base + offset ≤ reading.offset ∧ reading.offset + reading.length ≤ base + size) ∧
      (checksumTraced flash size offset checksum).2.length ≤ (size - offset + 63) / chunk := by
  have hChunk : chunk = 64 := rfl
  induction offset, checksum using checksumFrom.induct flash size with
  | case1 offset checksum hMore length error hError =>
      have hLength : min (size - offset) chunk ≤ size - offset := Nat.min_le_left ..
      rw [checksumTraced_of_error hMore checksum hError, List.forall_mem_singleton,
        List.length_singleton, hChunk]
      dsimp only
      omega
  | case2 offset checksum hMore length bytes hBytes ih =>
      obtain ⟨hInside, hCount⟩ := ih
      have hLength : length = min (size - offset) 64 := rfl
      rw [checksumTraced_of_ok hMore checksum hBytes, List.forall_mem_cons, List.length_cons]
      change (_ ∧ ∀ reading ∈ (checksumTraced flash size (offset + length) _).2, _) ∧
        (checksumTraced flash size (offset + length) _).2.length + 1 ≤ _
      refine ⟨⟨?_, fun reading hMem => ?_⟩, ?_⟩
      · change base + offset ≤ base + offset ∧ base + offset + length ≤ base + size
        omega
      · have := hInside reading hMem
        omega
      · rw [hChunk] at hCount ⊢
        omega
  | case3 offset checksum hDone =>
      rw [checksumTraced_of_le hDone]
      simp

/-- A checksum that was computed is the one over the image in one piece, and the image lies inside
the flash. -/
theorem checksumFrom_eq_ok {checksum result : Checksum}
    (h : checksumFrom flash size offset checksum = .ok result) :
    (offset < size → base + size ≤ flash.bytes.size) ∧
      result = checksum.update (masked offset (flash.slice (base + offset) (size - offset))) := by
  induction offset, checksum using checksumFrom.induct flash size with
  | case1 offset checksum hMore length error hError =>
      rw [checksumFrom_of_lt hMore, hError] at h
      cases h
  | case2 offset checksum hMore length bytes hBytes ih =>
      rw [checksumFrom_of_lt hMore, hBytes] at h
      obtain ⟨hEnd, hResult⟩ := ih h
      obtain ⟨hHere, hSlice⟩ := Flash.slice_of_read hBytes
      have hLength : bytes.length = length := Flash.length_of_read hBytes
      have hRest : size - offset = length + (size - (offset + length)) := by omega
      refine ⟨fun _ => ?_, ?_⟩
      · by_cases hLast : offset + length < size
        · exact hEnd hLast
        · omega
      · -- Only the last chunk may end inside a word, and nothing follows it.
        have hCut : bytes.length % 4 = 0 ∨
            flash.slice (base + offset + length) (size - (offset + length)) = [] := by
          have hChunk : length = min (size - offset) 64 := rfl
          by_cases hLast : size - (offset + length) = 0
          · exact .inr (by rw [hLast, Flash.slice_zero])
          · exact .inl (by omega)
        rw [hResult, hRest, Flash.slice_add flash hHere, hSlice, update_masked_append _ _ hCut,
          hLength, Nat.add_assoc]
  | case3 offset checksum hDone =>
      rw [checksumFrom_of_le hDone] at h
      obtain rfl := Except.ok.inj h
      refine ⟨fun hMore => absurd hMore hDone, ?_⟩
      rw [Nat.sub_eq_zero_of_le (Nat.le_of_not_lt hDone), Flash.slice_zero, update_masked_nil]

/-- The checksum in one piece, the place of the checksum itself being filled with zeros. -/
theorem imageChecksum_eq {flash : Flash} {size : Nat} (hSize : Layout.nameOffset ≤ size)
    (hInside : base + size ≤ flash.bytes.size) :
    flash.imageChecksum size =
      checksum ((flash.slice base size).take 0x158 ++ List.replicate 4 0 ++
        (flash.slice base size).drop 0x15C) := by
  have hField : ImageInfo.checksumField.offset + ImageInfo.checksumField.size ≤
      (flash.slice base size).length := by
    rw [flash.length_slice hInside]
    exact hSize
  rw [Flash.imageChecksum, masked_eq_put hField, Field.put_of_fits _ hField, List.append_assoc]
  rfl

/-- The read of the image information, which comes first. -/
def infoReading : Reading :=
  ⟨base + Layout.infoOffset, Packed.size ImageInfo⟩

/-- What the checksum over an image, or a read that failed on the way to it, makes of the image. -/
def judge (info : ImageInfo) : Except FlashError Checksum → Except FirmwareError ImageInfo
  | .error error => .error (.flash error)
  | .ok checksum =>
    if checksum.value = info.checksum then .ok info
    else .error (.checksum info.checksum checksum.value)

/-- The check of a flashed image, with the reads made for it. -/
def checkTraced (flash : Flash) : Except FirmwareError ImageInfo × List Reading :=
  match infoReading.perform flash with
  | .error error => (.error (.flash error), [infoReading])
  | .ok bytes =>
    let info : ImageInfo := ofWire bytes
    if info.sizeFits then
      let (sum, readings) := checksumTraced flash info.size.toNat 0 .start
      (judge info sum, infoReading :: readings)
    else (.error (.size info.size), [infoReading])

theorem imageInfo_of_read {bytes : List UInt8} (hRead : infoReading.perform flash = .ok bytes) :
    (ofWire bytes : ImageInfo) = flash.imageInfo := by
  rw [Flash.imageInfo, ← (Flash.slice_of_read hRead).2]
  rfl

/-- Without the image information nothing else is read. -/
theorem checkTraced_of_error {error : FlashError} (hRead : infoReading.perform flash = .error error) :
    checkTraced flash = (.error (.flash error), [infoReading]) := by
  rw [checkTraced, hRead]

/-- The image itself is read only if its size fits, and it is read whole. -/
theorem checkTraced_of_ok {bytes : List UInt8} (hRead : infoReading.perform flash = .ok bytes)
    {info : ImageInfo} (hInfo : info = flash.imageInfo) :
    checkTraced flash =
      if info.sizeFits then
        (judge info (checksumTraced flash info.size.toNat 0 .start).1,
          infoReading :: (checksumTraced flash info.size.toNat 0 .start).2)
      else (.error (.size info.size), [infoReading]) := by
  rw [checkTraced, hRead]
  dsimp only
  rw [imageInfo_of_read hRead, hInfo]

/-- Noting the reads of a check changes nothing. -/
theorem checkTraced_fst (flash : Flash) : (checkTraced flash).1 = checkFirmware flash := by
  cases hRead : infoReading.perform flash with
  | error error =>
      have hSame : flash.read (base + Layout.infoOffset) (Packed.size ImageInfo) = .error error :=
        hRead
      rw [checkTraced_of_error hRead, checkFirmware, hSame]
  | ok bytes =>
      rw [checkTraced_of_ok hRead rfl, checkFirmware_of_read hRead (imageInfo_of_read hRead)]
      split
      case isTrue =>
          rw [(checksumTraced_spec ..).1]
          cases checksumFrom flash flash.imageInfo.size.toNat 0 .start <;> rfl
      case isFalse => rfl

/-- What can become of a check, given what the image says about itself: a read failed, or the size
does not fit, or the checksum decided. -/
theorem checkTraced_cases {info : ImageInfo} (hInfo : info = flash.imageInfo)
    {outcome : Except FirmwareError ImageInfo} {readings : List Reading}
    (h : checkTraced flash = (outcome, readings)) :
    (∃ error, outcome = .error (.flash error) ∧ Reading.LastFails flash readings error) ∨
    Reading.AllSucceed flash readings ∧ (
      info.sizeFits = false ∧ outcome = .error (.size info.size) ∨
      info.sizeFits = true ∧ base + info.size.toNat ≤ flash.bytes.size ∧
        outcome = judge info (.ok ⟨flash.imageChecksum info.size.toNat⟩)) := by
  cases hRead : infoReading.perform flash with
  | error error =>
      rw [checkTraced_of_error hRead] at h
      obtain ⟨rfl, rfl⟩ := Prod.mk.inj h
      exact .inl ⟨error, rfl, Reading.lastFails_single hRead⟩
  | ok bytes =>
      rw [checkTraced_of_ok hRead hInfo] at h
      split at h
      case isFalse hFits =>
          obtain ⟨rfl, rfl⟩ := Prod.mk.inj h
          refine .inr ⟨List.forall_mem_singleton.mpr ⟨bytes, hRead⟩, .inl ⟨?_, rfl⟩⟩
          exact Bool.eq_false_iff.mpr hFits
      case isTrue hFits =>
          obtain ⟨rfl, rfl⟩ := Prod.mk.inj h
          obtain ⟨hSame, explain⟩ := checksumTraced_spec flash info.size.toNat 0 .start
          have explained := explain.cons hRead
          rw [hSame] at explained ⊢
          cases hResult : checksumFrom flash info.size.toNat 0 .start with
          | error error =>
              rw [hResult] at explained
              exact .inl ⟨error, rfl, explained⟩
          | ok sum =>
              rw [hResult] at explained
              obtain ⟨hEnd, hSum⟩ := checksumFrom_eq_ok hResult
              have hMore : 0 < info.size.toNat :=
                Nat.lt_of_lt_of_le (by decide) (ImageInfo.nameOffset_le_of_fits hFits)
              refine .inr ⟨explained, .inr ⟨hFits, hEnd hMore, ?_⟩⟩
              rw [hSum, Nat.add_zero, Nat.sub_zero, Checksum.update_start, Flash.imageChecksum]

/-- The image information lies in the firmware region. -/
theorem infoReading_inside :
    base ≤ infoReading.offset ∧ infoReading.offset + infoReading.length ≤ limit := by
  decide

/-- The check reads the firmware region alone: the image information, and each chunk of the image at
most once. -/
theorem checkTraced_inside (flash : Flash) :
    (∀ reading ∈ (checkTraced flash).2,
      base ≤ reading.offset ∧ reading.offset + reading.length ≤ limit) ∧
      (checkTraced flash).2.length ≤ 1 + (flash.imageInfo.size.toNat + 63) / chunk := by
  cases hRead : infoReading.perform flash with
  | error error =>
      rw [checkTraced_of_error hRead]
      exact ⟨List.forall_mem_singleton.mpr infoReading_inside, Nat.le_add_right ..⟩
  | ok bytes =>
      rw [checkTraced_of_ok hRead rfl]
      split
      case isFalse =>
          exact ⟨List.forall_mem_singleton.mpr infoReading_inside, Nat.le_add_right ..⟩
      case isTrue hFits =>
          obtain ⟨hInside, hCount⟩ :=
            checksumTraced_inside flash flash.imageInfo.size.toNat 0 .start
          have hMax := ImageInfo.size_le_of_fits hFits
          rw [List.forall_mem_cons, List.length_cons]
          refine ⟨⟨infoReading_inside, fun reading hMem => ?_⟩, ?_⟩
          · have := hInside reading hMem
            rw [limit]
            omega
          · rw [Nat.sub_zero] at hCount
            omega

end SelfCheck

/-- A size that an image may have: it holds at least its image information, fits the firmware region
and is whole words. -/
def ImageInfo.Fits (info : ImageInfo) : Prop :=
  Layout.nameOffset ≤ info.size.toNat ∧ info.size.toNat ≤ Layout.firmwareMaxSize ∧
    info.size.toNat % 4 = 0

theorem ImageInfo.sizeFits_iff (info : ImageInfo) : info.sizeFits = true ↔ info.Fits := by
  simp [sizeFits, Fits, and_assoc]

namespace SelfCheck

open Reading

variable {flash : Flash} {info : ImageInfo} {outcome : Except FirmwareError ImageInfo}
  {readings : List Reading} {computed : UInt32}

/-- Whether reads succeed, whether the size fits and whether the checksum is right decide together
what the check says. -/
theorem verdict (hInfo : info = flash.imageInfo) (h : checkTraced flash = (outcome, readings))
    (hComputed : info.Fits → base + info.size.toNat ≤ flash.bytes.size →
      flash.imageChecksum info.size.toNat = computed) :
    (∀ found, outcome = .ok found ↔
      AllSucceed flash readings ∧ info.Fits ∧ info.checksum = computed ∧ found = info) ∧
      (∀ declared, outcome = .error (.size declared) ↔
        AllSucceed flash readings ∧ ¬info.Fits ∧ declared = info.size) ∧
      (∀ expected found, outcome = .error (.checksum expected found) ↔
        AllSucceed flash readings ∧ info.Fits ∧ info.checksum ≠ computed ∧
          expected = info.checksum ∧ found = computed) ∧
      ∀ error, outcome = .error (.flash error) ↔ LastFails flash readings error := by
  rcases checkTraced_cases hInfo h with
    ⟨first, rfl, fails⟩ | ⟨succeed, ⟨hFits, rfl⟩ | ⟨hFits, hInside, hOutcome⟩⟩
  · have hUnique : ∀ error, first = error ↔ LastFails flash readings error :=
      fun error => ⟨fun hSame => hSame ▸ fails, fails.unique⟩
    simp [fails.not_allSucceed, hUnique]
  · have hLarge : ¬info.Fits := by
      rw [← info.sizeFits_iff, hFits]
      simp
    have hNone : ∀ error, ¬ LastFails flash readings error :=
      fun error fails => fails.not_allSucceed succeed
    simp [succeed, hLarge, hNone, eq_comm]
  · have hSmall := info.sizeFits_iff.mp hFits
    have hNone : ∀ error, ¬ LastFails flash readings error :=
      fun error fails => fails.not_allSucceed succeed
    rw [hComputed hSmall hInside, judge] at hOutcome
    dsimp only at hOutcome
    by_cases hSum : info.checksum = computed
    · rw [if_pos hSum.symm] at hOutcome
      simp [hOutcome, succeed, hSmall, hNone, hSum, eq_comm]
    · rw [if_neg (Ne.symm hSum)] at hOutcome
      simp [hOutcome, succeed, hSmall, hNone, hSum, eq_comm]

/-- The check accepts exactly the valid images, whatever the flash holds and whichever reads it
refuses. A firmware is accepted if and only if every read succeeded, its size fits and its checksum
is the one over the image in one piece, with zeros in the place of the checksum. It is refused for
its size or for its checksum if that alone is wrong, and for the flash if a read failed, which was
the last one. Every read lies in the firmware region, there are no more of them than the image has
chunks and one, and the flash stays as it is. -/
theorem firmware_accepted (flash : Flash) {outcome : Except FirmwareError ImageInfo}
    {readings : List Reading} (h : checkTraced flash = (outcome, readings)) {info : ImageInfo}
    (hInfo : info = ofWire (flash.slice (0x1000 + 0x150) 12)) {image : List UInt8}
    (hImage : image = flash.slice 0x1000 info.size.toNat) {computed : UInt32}
    (hComputed : computed =
      checksum (image.take 0x158 ++ List.replicate 4 0 ++ image.drop 0x15C)) :
    checkFirmware flash = outcome ∧
      (∀ found, outcome = .ok found ↔
        AllSucceed flash readings ∧ info.Fits ∧ info.checksum = computed ∧ found = info) ∧
      (∀ declared, outcome = .error (.size declared) ↔
        AllSucceed flash readings ∧ ¬info.Fits ∧ declared = info.size) ∧
      (∀ expected found, outcome = .error (.checksum expected found) ↔
        AllSucceed flash readings ∧ info.Fits ∧ info.checksum ≠ computed ∧
          expected = info.checksum ∧ found = computed) ∧
      (∀ error, outcome = .error (.flash error) ↔ LastFails flash readings error) ∧
      (∀ reading ∈ readings,
        0x1000 ≤ reading.offset ∧ reading.offset + reading.length ≤ 0xC000) ∧
      readings.length ≤ 1 + (info.size.toNat + 63) / 64 ∧
      (∀ chip version, (Bootloader.start flash chip version).firmware = outcome ∧
        (Bootloader.start flash chip version).flash = flash) ∧
      ∀ bootloader : Bootloader, bootloader.refresh.flash = bootloader.flash := by
  have hOutcome : checkFirmware flash = outcome := by rw [← checkTraced_fst, h]
  have hSame : info = flash.imageInfo := hInfo
  obtain ⟨hInside, hCount⟩ := checkTraced_inside flash
  rw [h] at hInside hCount
  rw [← hSame] at hCount
  have hSum : info.Fits → base + info.size.toNat ≤ flash.bytes.size →
      flash.imageChecksum info.size.toNat = computed := by
    intro hFits hEnd
    rw [imageChecksum_eq hFits.1 hEnd, hComputed, hImage]
    rfl
  obtain ⟨hOk, hSize, hChecksum, hFlash⟩ := verdict hSame h hSum
  exact ⟨hOutcome, hOk, hSize, hChecksum, hFlash, hInside, hCount, fun _ _ => ⟨hOutcome, rfl⟩,
    fun bootloader => bootloader.refresh_kept.1⟩

/-- A prepared image in an otherwise blank flash is accepted, by readings that all lie in the
firmware region. -/
theorem firmware_accepted_installed :
    ∃ (image : Host.Image) (readings : List Reading),
      Host.Image.prepare (List.replicate 348 0) = .ok image ∧
      checkTraced image.installed = (.ok image.info, readings) ∧
      AllSucceed image.installed readings ∧ image.info.Fits ∧
      (∀ reading ∈ readings,
        0x1000 ≤ reading.offset ∧ reading.offset + reading.length ≤ 0xC000) := by
  have hData : (List.replicate 348 (0 : UInt8)).length = 348 := List.length_replicate
  obtain ⟨image, hImage⟩ := Host.Image.prepare_total
    (by rw [hData]; decide) (by rw [hData]; decide)
  have hCheck := Host.Image.checkFirmware_installed (Host.Image.wellFormed_of_prepare hImage)
  refine ⟨image, (checkTraced image.installed).2, hImage, ?_⟩
  generalize image.installed = flash at hCheck ⊢
  have hTraced : checkTraced flash = (.ok image.info, (checkTraced flash).2) :=
    Prod.ext ((checkTraced_fst flash).trans hCheck) rfl
  obtain ⟨_, hOk, _, _, _, hInside, _⟩ := firmware_accepted flash hTraced rfl rfl rfl
  obtain ⟨succeed, hFits, _, hSame⟩ := (hOk image.info).mp rfl
  rw [← hSame] at hFits
  exact ⟨hTraced, succeed, hFits, hInside⟩

end SelfCheck

end Multidrop
