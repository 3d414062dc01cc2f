import Multidrop.Node.Bootloader
import Multidrop.Proofs.SelfCheck
import Multidrop.Proofs.Strict.Command

/-!
What a bootloader makes of the image in its flash, in strict operations. Whatever size the image
gives itself, it is checked before anything is computed from it, so that the name is never looked
for before the start of the image.
-/

namespace Multidrop

namespace SelfCheck

def strictBase : Strict Nat :=
  Strict.sub Layout.firmwareStart Layout.flashBase

def strictMasked (offset : Nat) (bytes : List UInt8) : Strict (List UInt8) := do
  let stop ← Strict.add ImageInfo.checksumField.offset ImageInfo.checksumField.size
  bytes.zipIdx.mapM fun (byte, i) => do
    let place ← Strict.add offset i
    return if ImageInfo.checksumField.offset ≤ place ∧ place < stop then 0 else byte

/-- The checksum of the image from `offset` up to `size`, read in so many chunks at most. -/
def strictChecksumFrom (flash : Flash) (size : Nat) :
    (rounds offset : Nat) → Checksum → Strict (Except FlashError Checksum)
  | 0, _, _ => .error .endless
  | rounds + 1, offset, checksum => do
    if offset < size then
      let length := min (← Strict.sub size offset) chunk
      let part ← Strict.slice (zeros chunk) 0 length
      match flash.read (← Strict.add (← strictBase) offset) part.length with
      | .error error => return .error error
      | .ok bytes =>
        let checksum ← checksum.strictUpdate (← strictMasked offset bytes)
        strictChecksumFrom flash size rounds (← Strict.add offset length) checksum
    else return .ok checksum

theorem strictBase_eq : strictBase = .ok base :=
  Strict.sub_eq (by decide)

/-- The checksum field is masked without a trap within 32 bits. -/
theorem strictMasked_eq {offset : Nat} {bytes : List UInt8}
    (h : offset + bytes.length < UInt32.size) :
    strictMasked offset bytes = .ok (masked offset bytes) := by
  rw [strictMasked, Strict.add_eq (by decide), Strict.ok_bind, masked, List.mapIdx_eq_zipIdx_map]
  apply Strict.mapM_eq
  rintro ⟨byte, i⟩ hMem
  have hIndex : i < bytes.length := by simpa using (List.mem_zipIdx hMem).2.1
  dsimp only
  rw [Strict.add_eq (by omega)]
  rfl

/-- A checksum that may take one round more than there are chunks in what is left ends. -/
theorem strictChecksumFrom_eq (flash : Flash) {size : Nat} (hSize : size ≤ Layout.firmwareMaxSize)
    {rounds offset : Nat} (hRounds : size ≤ offset + chunk * rounds) (checksum : Checksum) :
    strictChecksumFrom flash size (rounds + 1) offset checksum =
      .ok (checksumFrom flash size offset checksum) := by
  have hLimit : base + Layout.firmwareMaxSize < UInt32.size := by decide
  induction rounds generalizing offset checksum with
  | zero =>
      have hDone : ¬offset < size := by omega
      rw [strictChecksumFrom, if_neg hDone, checksumFrom_of_le hDone]
      rfl
  | succ rounds ih =>
      rw [strictChecksumFrom]
      by_cases hMore : offset < size
      · rw [if_pos hMore, Strict.sub_eq (Nat.le_of_lt hMore), Strict.ok_bind]
        dsimp only
        rw [Strict.slice_zeros (Nat.min_le_right ..), Strict.ok_bind, length_zeros, strictBase_eq,
          Strict.ok_bind, Strict.add_eq (by omega), Strict.ok_bind, checksumFrom_of_lt hMore]
        cases hRead : flash.read (base + offset) (min (size - offset) chunk) with
        | error error => rfl
        | ok bytes =>
            have hBytes := Flash.length_of_read hRead
            have hRest : size ≤ offset + min (size - offset) chunk + chunk * rounds := by
              rw [Nat.mul_succ] at hRounds
              omega
            dsimp only
            rw [strictMasked_eq (by omega), Strict.ok_bind, Checksum.strictUpdate_eq,
              Strict.ok_bind, Strict.add_eq (by omega), Strict.ok_bind, ih hRest]
      · rw [if_neg hMore, checksumFrom_of_le hMore]
        rfl

end SelfCheck

def ImageInfo.strictSizeFits (info : ImageInfo) : Strict Bool := do
  return Layout.nameOffset ≤ info.size.toNat && info.size.toNat ≤ Layout.firmwareMaxSize &&
    (← Strict.mod info.size.toNat 4) == 0

theorem ImageInfo.strictSizeFits_eq (info : ImageInfo) :
    info.strictSizeFits = .ok info.sizeFits := by
  rw [strictSizeFits, Strict.mod_eq (by decide)]
  rfl

def strictCheckFirmware (flash : Flash) : Strict (Except FirmwareError ImageInfo) := do
  let place ← Strict.add (← SelfCheck.strictBase) Layout.infoOffset
  match flash.read place (Packed.size ImageInfo) with
  | .error error => return .error (.flash error)
  | .ok bytes =>
    let info : ImageInfo := ofWire bytes
    if ← info.strictSizeFits then
      let rounds := info.size.toNat / SelfCheck.chunk + 2
      match ← SelfCheck.strictChecksumFrom flash info.size.toNat rounds 0 .start with
      | .error error => return .error (.flash error)
      | .ok checksum =>
        if checksum.value = info.checksum then return .ok info
        else return .error (.checksum info.checksum checksum.value)
    else return .error (.size info.size)

/-- The self check does not trap. -/
theorem strictCheckFirmware_eq (flash : Flash) :
    strictCheckFirmware flash = .ok (checkFirmware flash) := by
  rw [strictCheckFirmware, SelfCheck.strictBase_eq, Strict.ok_bind, Strict.add_eq (by decide),
    Strict.ok_bind, checkFirmware]
  cases flash.read (SelfCheck.base + Layout.infoOffset) (Packed.size ImageInfo) with
  | error error => rfl
  | ok bytes =>
      dsimp only
      generalize (ofWire bytes : ImageInfo) = info
      rw [ImageInfo.strictSizeFits_eq, Strict.ok_bind]
      by_cases hFits : info.sizeFits = true
      · have hRounds : info.size.toNat ≤
            0 + SelfCheck.chunk * (info.size.toNat / SelfCheck.chunk + 1) := by
          simp only [SelfCheck.chunk]
          omega
        rw [if_pos hFits, if_pos hFits,
          SelfCheck.strictChecksumFrom_eq flash (ImageInfo.size_le_of_fits hFits) hRounds,
          Strict.ok_bind]
        cases SelfCheck.checksumFrom flash info.size.toNat 0 .start with
        | error error => rfl
        | ok checksum =>
            dsimp only
            split <;> rfl
      · rw [if_neg hFits, if_neg hFits]
        rfl

def strictFirmwareName (flash : Flash) (info : ImageInfo) : Strict (List UInt8) := do
  let size := min (← Strict.sub info.size.toNat Layout.nameOffset) Layout.nameMax
  let part ← Strict.slice (zeros Layout.nameMax) 0 size
  let place ← Strict.add (← SelfCheck.strictBase) Layout.nameOffset
  match flash.read place part.length with
  | .error _ => return []
  | .ok bytes =>
    let buffer ← Strict.copy (zeros Layout.nameMax) 0 size bytes
    let stop := ((← Strict.slice buffer 0 size).findIdx? (· == 0)).getD size
    Strict.slice buffer 0 stop

/-- The name is read without a trap from an image that reaches up to it. -/
theorem strictFirmwareName_eq (flash : Flash) {info : ImageInfo}
    (h : Layout.nameOffset ≤ info.size.toNat) :
    strictFirmwareName flash info = .ok (firmwareName flash info) := by
  have hSize : min (info.size.toNat - Layout.nameOffset) Layout.nameMax ≤ Layout.nameMax :=
    Nat.min_le_right ..
  rw [strictFirmwareName, Strict.sub_eq h, Strict.ok_bind, firmwareName]
  generalize min (info.size.toNat - Layout.nameOffset) Layout.nameMax = size at hSize ⊢
  dsimp only
  rw [Strict.slice_zeros hSize, Strict.ok_bind, SelfCheck.strictBase_eq, Strict.ok_bind,
    Strict.add_eq (by decide), Strict.ok_bind, length_zeros]
  cases hRead : flash.read (SelfCheck.base + Layout.nameOffset) size with
  | error error => rfl
  | ok bytes =>
      have hBytes : bytes.length = size := Flash.length_of_read hRead
      have hStop : bytes.findIdx (· == 0) ≤ bytes.length := List.findIdx_le_length
      subst hBytes
      dsimp only
      rw [Strict.copy_eq (Nat.zero_le _) (by simpa using hSize) rfl, Strict.ok_bind, List.take_zero,
        List.nil_append, Strict.slice_eq (Nat.zero_le _) (by simp), Strict.ok_bind,
        List.take_left, List.drop_zero, ← List.findIdx_eq_getD_findIdx?,
        Strict.slice_eq (Nat.zero_le _) (by rw [List.length_append]; omega), List.drop_zero,
        List.take_append_of_le_length hStop, List.takeWhile_eq_take_findIdx_not]
      simp [BEq.beq]

/-- Looking for the name of an image that is too short for its information is a trap. Only an image
that passed the check is asked for its name. -/
theorem strictFirmwareName_short (flash : Flash) {info : ImageInfo}
    (h : info.size.toNat < Layout.nameOffset) :
    strictFirmwareName flash info = .error .overflow := by
  rw [strictFirmwareName, Strict.sub, if_neg (Nat.not_le.mpr h)]
  rfl

namespace Bootloader

def strictIdentify (flash : Flash) (version : UInt32) :
    Except FirmwareError ImageInfo → Strict Identity
  | .ok info => do
    Identity.strictNamed .inBootloader info.version version (← strictFirmwareName flash info)
  | .error _ => Identity.strictNamed .inBootloader 0 version []

def strictStart (flash : Flash) (chip : Chip) (version : UInt32) : Strict Bootloader := do
  let firmware ← strictCheckFirmware flash
  let identity ← strictIdentify flash version firmware
  return { flash, chip, version, firmware, identity, stale := false }

def strictRefresh (bootloader : Bootloader) : Strict Bootloader :=
  if bootloader.stale then strictStart bootloader.flash bootloader.chip bootloader.version
  else return bootloader

theorem strictStart_eq (flash : Flash) (chip : Chip) (version : UInt32) :
    strictStart flash chip version = .ok (start flash chip version) := by
  rw [strictStart, strictCheckFirmware_eq, Strict.ok_bind, start]
  cases hCheck : checkFirmware flash with
  | error error =>
      rw [strictIdentify, Identity.strictNamed_eq]
      rfl
  | ok info =>
      have hName := ImageInfo.nameOffset_le_of_fits (sizeFits_of_ok hCheck)
      rw [strictIdentify, strictFirmwareName_eq flash hName, Strict.ok_bind,
        Identity.strictNamed_eq]
      rfl

theorem strictRefresh_eq (bootloader : Bootloader) :
    bootloader.strictRefresh = .ok bootloader.refresh := by
  rw [strictRefresh, refresh]
  split
  · exact strictStart_eq ..
  · rfl

end Bootloader

end Multidrop
