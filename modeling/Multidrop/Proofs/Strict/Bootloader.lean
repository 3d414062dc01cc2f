import Multidrop.Proofs.Reply
import Multidrop.Proofs.Strict.Command
import Multidrop.Proofs.Strict.Image

/-!
The bootloader in strict operations. A page is compared with the firmware region before its place in
flash is computed, and a host that asks for memory chooses an address and a length freely: the first
is counted up with wrapping and looked up before it is used, the second is bounded by the packet.
-/

namespace Multidrop

namespace Layout

def strictPageAddress (page : UInt16) : Strict Nat := do
  Strict.add flashBase (← Strict.mul page.toNat pageSize)

def strictIsFirmwarePage (page : UInt16) : Strict Bool := do
  let address ← strictPageAddress page
  return firmwareStart ≤ address && address < configStart

def strictFlashOffset (address : Nat) : Strict (Option Nat) := do
  if flashBase ≤ address then
    if (← Strict.sub address flashBase) < flashSize then
      return some (← Strict.sub address flashBase)
    else return none
  else return none

theorem lt_of_flashOffset {address offset : Nat} (h : flashOffset? address = some offset) :
    offset < flashSize := by
  rw [flashOffset?] at h
  split at h
  case isTrue hInside => exact Option.some.inj h ▸ hInside.2
  case isFalse => cases h

theorem strictPageAddress_eq (page : UInt16) :
    strictPageAddress page = .ok (pageAddress page) := by
  have hPage := page.toNat_lt
  have hProduct : page.toNat * pageSize < UInt32.size := by
    simp only [pageSize, UInt32.size]
    omega
  have hSum : flashBase + page.toNat * pageSize < UInt32.size := by
    simp only [flashBase, pageSize, UInt32.size]
    omega
  rw [strictPageAddress, Strict.mul_eq hProduct, Strict.ok_bind, Strict.add_eq hSum]
  rfl

theorem strictIsFirmwarePage_eq (page : UInt16) :
    strictIsFirmwarePage page = .ok (isFirmwarePage page) := by
  rw [strictIsFirmwarePage, strictPageAddress_eq]
  rfl

theorem strictFlashOffset_eq (address : Nat) :
    strictFlashOffset address = .ok (flashOffset? address) := by
  rw [strictFlashOffset, flashOffset?]
  by_cases hBase : flashBase ≤ address
  · rw [if_pos hBase, Strict.sub_eq hBase, Strict.ok_bind, Strict.ok_bind]
    by_cases hSize : address - flashBase < flashSize
    · rw [if_pos hSize, if_pos ⟨hBase, hSize⟩]
      rfl
    · rw [if_neg hSize, if_neg fun h => hSize h.2]
      rfl
  · rw [if_neg hBase, if_neg fun h => hBase h.1]
    rfl

end Layout

namespace Bootloader

def strictIsBlank (flash : Flash) (offset : Nat) : Strict Bool :=
  (List.range (Layout.pageSize / blankChunk)).allM fun i => do
    match flash.read (← Strict.add offset (i * blankChunk)) blankChunk with
    | .ok bytes => return bytes.all (· == 0xFF)
    | .error _ => return false

/-- Programs words from the one with number `i` on, reading each one back. Where one fails its
address is reported. -/
def strictProgramVerified (flash : Flash) (offset : Nat) :
    (i : Nat) → List (List UInt8) → Strict (Bool × Flash)
  | _, [] => return (true, flash)
  | i, word :: rest => do
    let place ← Strict.add offset (← Strict.mul 4 i)
    match flash.program place word with
    | (.error _, flash) =>
      let _address ← Strict.add place Layout.flashBase
      return (false, flash)
    | (.ok (), flash) =>
      if readsBack flash place word then strictProgramVerified flash offset (i + 1) rest
      else
        let _address ← Strict.add place Layout.flashBase
        return (false, flash)

def strictFlashPage (flash : Flash) (page : Page) : Strict (FlashStatus × Flash) := do
  if !(← Layout.strictIsFirmwarePage page.index) then return (.badPage, flash)
  else if (← Checksum.start.strictUpdate page.data.toList).value ≠ page.checksum then
    return (.badChecksum, flash)
  else
    let offset ← Strict.sub (← Layout.strictPageAddress page.index) Layout.flashBase
    match flash.erase offset (← Strict.add offset Layout.pageSize) with
    | (.error _, flash) => return (.eraseFailed, flash)
    | (.ok (), flash) =>
      if ← strictIsBlank flash offset then
        match ← strictProgramVerified flash offset 0 (quads page.data.toList).1 with
        | (true, flash) => return (.success, flash)
        | (false, flash) => return (.verifyFailed, flash)
      else return (.eraseFailed, flash)

def strictWordAt (flash : Flash) (address : UInt32) : Strict (List UInt8) := do
  match ← Layout.strictFlashOffset address.toNat with
  | some offset =>
    if (← Strict.add offset 4) ≤ Layout.flashSize then
      match flash.read offset 4 with
      | .ok bytes => return bytes
      | .error _ => return [0, 0, 0, 0]
    else return [0, 0, 0, 0]
  | none => return [0, 0, 0, 0]

/-- Sends the word with number `i` from an address on and adds it to the checksum. -/
def strictReadWord (flash : Flash) (address : UInt32) (progress : Checksum × Session) (i : Nat) :
    Strict (Checksum × Session) := do
  let word ← strictWordAt flash (address + UInt32.ofNat (← Strict.mul 4 i))
  return (← progress.1.strictUpdate word, progress.2.send word)

def strictReadMemory (flash : Flash) (address : UInt32) (session : Session) : Strict Session := do
  let count ← Strict.div (session.remaining - 4) 4
  let (checksum, session) ← (List.range count).foldlM (strictReadWord flash address)
    (.start, session)
  return session.send (toWire checksum.value)

theorem strictIsBlank_eq (flash : Flash) {offset : Nat}
    (h : offset + Layout.pageSize < UInt32.size) :
    strictIsBlank flash offset = .ok (isBlank flash offset) := by
  apply Strict.allM_eq
  intro i hMem
  have hIndex : i < Layout.pageSize / blankChunk := List.mem_range.mp hMem
  have hPlace : offset + i * blankChunk < UInt32.size := by
    simp only [Layout.pageSize, blankChunk] at *
    omega
  rw [Strict.add_eq hPlace, Strict.ok_bind]
  cases flash.read (offset + i * blankChunk) blankChunk <;> rfl

/-- A page is programmed and compared without a trap. -/
theorem strictProgramVerified_eq (flash : Flash) {offset i : Nat} {pieces : List (List UInt8)}
    (hWords : ∀ word ∈ pieces, word.length = 4)
    (h : offset + 4 * (i + pieces.length) + Layout.flashBase < UInt32.size) :
    strictProgramVerified flash offset i pieces =
      .ok (programVerified flash (offset + 4 * i) pieces) := by
  induction pieces generalizing flash i with
  | nil => rfl
  | cons word rest ih =>
      obtain ⟨hWord, hRest⟩ := List.forall_mem_cons.mp hWords
      rw [List.length_cons] at h
      have hNext : offset + 4 * i + word.length = offset + 4 * (i + 1) := by omega
      rw [strictProgramVerified, Strict.mul_eq (by omega), Strict.ok_bind,
        Strict.add_eq (by omega), Strict.ok_bind, programVerified]
      rcases flash.program (offset + 4 * i) word with ⟨error | done, after⟩
      · dsimp only
        rw [Strict.add_eq (by omega)]
        rfl
      · dsimp only
        rw [hNext]
        split
        · exact ih after hRest (by omega)
        · rw [Strict.add_eq (by omega)]
          rfl

/-- The words of whole words are the bytes four at a time. -/
theorem map_toWire_words {bytes : List UInt8} (h : bytes.length % 4 = 0) :
    (words bytes).map toWire = (quads bytes).1 := by
  refine whole_words_induction rfl (fun b₀ b₁ b₂ b₃ rest _ ih => ?_) bytes h
  rw [words, quads, List.map_cons, ih, toWire_ofWire_word _ rfl]

/-- A page has as many words as fit in it. -/
theorem length_quads_page (page : Page) :
    (quads page.data.toList).1.length = Layout.pageSize / 4 := by
  have hLength : page.data.toList.length = Layout.pageSize := Vector.length_toList
  rw [← map_toWire_words (by rw [hLength, Layout.pageSize]), List.length_map, length_words, hLength]
  rfl

/-- To flash a page does not trap. -/
theorem strictFlashPage_eq (flash : Flash) (page : Page) :
    strictFlashPage flash page = .ok (flashPage flash page) := by
  have hLength : page.data.toList.length % 4 = 0 := by rw [Vector.length_toList, Layout.pageSize]
  rw [strictFlashPage, Layout.strictIsFirmwarePage_eq, Strict.ok_bind, flashPage]
  by_cases hPage : Layout.isFirmwarePage page.index = true
  · -- The page lies in the firmware region, so its offset and what follows it are small.
    obtain ⟨_, hEnd⟩ := (Layout.isFirmwarePage_iff page.index).mp hPage
    have hLimit : SelfCheck.limit + Layout.flashBase < UInt32.size := by decide
    have hBase : Layout.flashBase ≤ Layout.pageAddress page.index := Nat.le_add_right ..
    have hWords : Layout.pageOffset page.index + 4 * (0 + (quads page.data.toList).1.length) +
        Layout.flashBase < UInt32.size := by
      rw [length_quads_page]
      simp only [Layout.pageSize] at *
      omega
    rw [hPage, if_neg (by simp), if_neg (by simp), Checksum.strictUpdate_eq, Strict.ok_bind,
      Checksum.update_start]
    by_cases hSum : checksum page.data.toList = page.checksum
    · rw [if_neg fun h => h hSum, if_neg fun h => h hSum, Layout.strictPageAddress_eq,
        Strict.ok_bind, Strict.sub_eq hBase, Strict.ok_bind, Layout.pageAddress_sub,
        Strict.add_eq (by omega), Strict.ok_bind]
      dsimp only
      rcases flash.erase (Layout.pageOffset page.index)
        (Layout.pageOffset page.index + Layout.pageSize) with ⟨error | done, erased⟩
      · rfl
      · dsimp only
        rw [strictIsBlank_eq erased (by omega), Strict.ok_bind,
          strictProgramVerified_eq erased (fun word hMem => length_of_mem_quads hMem) hWords,
          map_toWire_words hLength, Nat.mul_zero, Nat.add_zero]
        split
        · rcases programVerified erased (Layout.pageOffset page.index) (quads page.data.toList).1
            with ⟨done | done, after⟩ <;> rfl
        · rfl
    · rw [if_pos hSum, if_pos hSum]
      rfl
  · rw [if_pos (by simpa using hPage), if_pos (by simpa using hPage)]
    rfl

theorem strictWordAt_eq (flash : Flash) (address : UInt32) :
    strictWordAt flash address = .ok (wordAt flash address) := by
  rw [strictWordAt, Layout.strictFlashOffset_eq, Strict.ok_bind, wordAt]
  cases hOffset : Layout.flashOffset? address.toNat with
  | none => rfl
  | some offset =>
      have hInside := Layout.lt_of_flashOffset hOffset
      have hLimit : Layout.flashSize + 4 < UInt32.size := by decide
      dsimp only
      rw [Strict.add_eq (by omega), Strict.ok_bind]
      split
      · cases flash.read offset 4 <;> rfl
      · rfl

theorem strictReadWord_eq (flash : Flash) (address : UInt32) (progress : Checksum × Session)
    {i : Nat} (h : 4 * i < UInt32.size) :
    strictReadWord flash address progress i =
      .ok (progress.1.update (wordAt flash (address + 4 * UInt32.ofNat i)),
        progress.2.send (wordAt flash (address + 4 * UInt32.ofNat i))) := by
  have hPlace : UInt32.ofNat (4 * i) = 4 * UInt32.ofNat i := UInt32.ofNat_mul ..
  rw [strictReadWord, Strict.mul_eq h, Strict.ok_bind, strictWordAt_eq, Strict.ok_bind,
    Checksum.strictUpdate_eq, Strict.ok_bind, hPlace]
  rfl

/-- Words that are sent as they are found have the checksum of all of them. -/
theorem foldl_send_words {words : List (List UInt8)} (h : ∀ word ∈ words, word.length = 4)
    (checksum : Checksum) (session : Session) :
    words.foldl (fun progress word => (progress.1.update word, progress.2.send word))
        (checksum, session) =
      (checksum.update words.flatten, session.run (words.map .send)) := by
  induction words generalizing checksum session with
  | nil => rfl
  | cons word rest ih =>
      obtain ⟨hWord, hRest⟩ := List.forall_mem_cons.mp h
      rw [List.foldl_cons, ih hRest, List.flatten_cons,
        Checksum.update_append _ _ _ (by rw [hWord])]
      rfl

/-- Nor does to read memory. -/
theorem strictReadMemory_eq (flash : Flash) (address : UInt32) (session : Session) :
    strictReadMemory flash address session =
      .ok (session.run (readMemory flash address session)) := by
  have hHeader := session.header.length.toNat_lt
  have hSmall : ∀ i ∈ List.range ((session.remaining - 4) / 4), 4 * i < UInt32.size := by
    intro i hMem
    have hIndex := List.mem_range.mp hMem
    simp only [Session.remaining, UInt32.size] at *
    omega
  have hWords : ∀ word ∈ (List.range ((session.remaining - 4) / 4)).map fun i =>
      wordAt flash (address + 4 * UInt32.ofNat i), word.length = 4 := by
    intro word hMem
    obtain ⟨i, _, rfl⟩ := List.mem_map.mp hMem
    exact length_wordAt flash _
  have hSent := foldl_send_words hWords .start session
  rw [List.foldl_map] at hSent
  have hRounds : ∀ progress, ∀ i ∈ List.range ((session.remaining - 4) / 4), _ :=
    fun progress i hMem => strictReadWord_eq flash address progress (hSmall i hMem)
  rw [strictReadMemory, Strict.div_eq (by decide), Strict.ok_bind, Strict.foldlM_eq hRounds, hSent,
    Strict.ok_bind, readMemory, Session.run_append]
  rfl

def strictReplacePage (bootloader : Bootloader) (page : Page) (session : Session) :
    Strict (Session × Bootloader) := do
  let (status, flash) ← strictFlashPage bootloader.flash page
  let stale := bootloader.stale || status == .success
  return (session.send (toWire status), { bootloader with flash, stale })

def strictShare (bootloader : Bootloader) (request : Request) (session : Session) :
    Strict (Session × Bootloader) := do
  let (session, flash) ←
    Shared.strictExecute request session bootloader.identity bootloader.flash
  return (session, { bootloader with flash })

def strictExecute (bootloader : Bootloader) (request : Request) (session : Session) :
    Strict (Session × Bootloader) := do
  match request.header.command, request.payload with
  | .resetToBootloader, _ => return (session, bootloader)
  | .resetToFirmware, _ =>
    let chip := (bootloader.chip.setBootFlag .enforceNormalBoot).reset
    return (session, { bootloader with chip })
  | .readMemory, .memory address =>
    return (← strictReadMemory bootloader.flash address session, bootloader)
  | .readMemory, _ => return (session, bootloader)
  | .flashFirmware, .page page => bootloader.strictReplacePage page session
  | .flashFirmware, _ => return (session, bootloader)
  | .getData, _ => (← bootloader.strictRefresh).strictShare request session
  | _, _ => bootloader.strictShare request session

/-- Nor does the command that replaces a page. -/
theorem strictReplacePage_eq (bootloader : Bootloader) (page : Page) (session : Session) :
    bootloader.strictReplacePage page session =
      .ok (session.run (bootloader.replacePage page).1, (bootloader.replacePage page).2) := by
  rw [strictReplacePage, strictFlashPage_eq, replacePage_eq]
  rfl

theorem strictShare_eq (bootloader : Bootloader) (request : Request) (session : Session) :
    bootloader.strictShare request session =
      .ok (session.run (bootloader.share request session).1,
        (bootloader.share request session).2) := by
  rw [strictShare, Shared.strictExecute_eq, share_eq]
  rfl

theorem strictExecute_eq (bootloader : Bootloader) (request : Request) (session : Session) :
    bootloader.strictExecute request session =
      .ok (session.run (execute bootloader request session).1,
        (execute bootloader request session).2) := by
  obtain ⟨⟨length, target, command⟩, payload⟩ := request
  cases command with
  | resetToBootloader => rfl
  | resetToFirmware => rfl
  | readMemory =>
      cases payload with
      | memory address =>
          rw [strictExecute]
          dsimp only
          rw [strictReadMemory_eq]
          rfl
      | _ => rfl
  | flashFirmware =>
      cases payload with
      | page page => exact bootloader.strictReplacePage_eq page session
      | _ => rfl
  | getData =>
      rw [strictExecute]
      dsimp only
      rw [strictRefresh_eq, Strict.ok_bind]
      exact bootloader.refresh.strictShare_eq _ session
  | _ => exact bootloader.strictShare_eq _ session

instance : StrictCommandSet Bootloader where
  execute := strictExecute
  execute_eq := strictExecute_eq

end Bootloader

end Multidrop
