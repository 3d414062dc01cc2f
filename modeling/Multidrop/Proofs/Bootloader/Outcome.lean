import Multidrop.Proofs.Bootloader.Identity

/-!
What the status of a flashed page tells of the flash, whatever defects the flash has. Words are
programmed in order and each one is read back before the next one is tried. So where programming
stops, the words before it are as they should be and the words behind it are still erased.
-/

namespace Multidrop

/-- The pages that may be overwritten, by their numbers. -/
theorem Layout.isFirmwarePage_iff_index (page : UInt16) :
    isFirmwarePage page = true ↔ 4 ≤ page.toNat ∧ page.toNat ≤ 47 := by
  rw [isFirmwarePage_iff, SelfCheck.base_eq, SelfCheck.limit_eq, pageOffset]
  simp only [pageSize]
  omega

namespace Bootloader

/-- A page that reads as all ones is blank. -/
theorem blank_of_isBlank {flash : Flash} {offset : Nat} (h : isBlank flash offset = true) :
    flash.Blank offset (offset + Layout.pageSize) := by
  intro i hLow hHigh
  obtain ⟨chunk, place, hChunk, hPlace, hIndex⟩ :
      ∃ chunk place, chunk < Layout.pageSize / blankChunk ∧ place < blankChunk ∧
        offset + chunk * blankChunk + place = i := by
    refine ⟨(i - offset) / blankChunk, (i - offset) % blankChunk, ?_⟩
    simp only [Layout.pageSize, blankChunk] at *
    omega
  have hRead := List.all_eq_true.mp h chunk (List.mem_range.mpr hChunk)
  split at hRead
  case h_1 bytes hBytes =>
      obtain ⟨hFits, rfl⟩ := Flash.slice_of_read hBytes
      have hSome := flash.getElem?_slice (offset + chunk * blankChunk) blankChunk place
      rw [if_pos hPlace, hIndex, Array.getElem?_eq_getElem (by omega)] at hSome
      have hByte := List.all_eq_true.mp hRead _ (List.mem_of_getElem? hSome)
      rw [Array.getElem?_eq_getElem (by omega), eq_of_beq hByte]
  case h_2 => cases hRead

/-- Bytes that read back stand in their places. -/
theorem slice_of_readsBack {flash : Flash} {offset : Nat} {bytes : List UInt8}
    (h : readsBack flash offset bytes = true) :
    offset + bytes.length ≤ flash.bytes.size ∧ flash.slice offset bytes.length = bytes := by
  rw [readsBack] at h
  split at h
  case h_1 found hRead =>
      obtain rfl : found = bytes := eq_of_beq h
      exact Flash.slice_of_read hRead
  case h_2 => cases h

/-- Bytes that were programmed word by word over a blank range, up to the word `count`. The words
before it stand in their places, and nothing behind it was tried. -/
structure Progress (offset : Nat) (bytes : List UInt8) (after : Flash) (count : Nat) : Prop where
  stored : after.slice offset (Flash.wordSize * count) = bytes.take (Flash.wordSize * count)
  behind : after.Blank (offset + Flash.wordSize * count + Flash.wordSize) (offset + bytes.length)

namespace Progress

variable {flash after : Flash} {offset : Nat} {piece rest : List UInt8}

/-- Whatever became of the first word, nothing behind it was tried. -/
theorem first (hPiece : piece.length = Flash.wordSize)
    (blank : flash.Blank offset (offset + (piece ++ rest).length))
    (confined : Flash.Confined offset (offset + piece.length) flash after) :
    Progress offset (piece ++ rest) after 0 where
  stored := by simp
  behind := by
    rw [Nat.mul_zero, Nat.add_zero, ← hPiece]
    have hBehind := blank.mono (Nat.le_add_right offset piece.length) (Nat.le_refl _)
    exact hBehind.confined confined (.inr (Nat.le_refl _))

/-- A word that reads back stays as it is while those behind it are programmed. -/
theorem next (hPiece : piece.length = Flash.wordSize)
    (hBack : readsBack flash offset piece = true)
    (confined : Flash.Confined (offset + piece.length) (offset + piece.length + rest.length) flash
      after) {count : Nat} (progress : Progress (offset + piece.length) rest after count) :
    Progress offset (piece ++ rest) after (count + 1) := by
  obtain ⟨hInside, hStored⟩ := slice_of_readsBack hBack
  have hTotal : Flash.wordSize * (count + 1) = piece.length + Flash.wordSize * count := by
    rw [hPiece, Nat.mul_succ, Nat.add_comm]
  refine ⟨?_, ?_⟩
  · rw [hTotal, Flash.slice_add _ (by rw [confined.size]; exact hInside), progress.stored,
      confined.slice (.inl (Nat.le_refl _)), hStored, List.take_length_add_append]
  · rw [hTotal, List.length_append, ← Nat.add_assoc, ← Nat.add_assoc]
    exact progress.behind

end Progress

/-- Over a blank range, programming comes to the end or to the word at which it stops. -/
theorem progress_of_programVerified {flash : Flash} {offset : Nat} {pieces : List (List UInt8)}
    (hPieces : ∀ piece ∈ pieces, piece.length = Flash.wordSize)
    (blank : flash.Blank offset (offset + pieces.flatten.length)) {done : Bool} {after : Flash}
    (h : programVerified flash offset pieces = (done, after)) :
    ∃ count, Progress offset pieces.flatten after count ∧
      if done then count = pieces.length else count < pieces.length := by
  induction pieces generalizing flash offset with
  | nil =>
      obtain ⟨rfl, rfl⟩ := Prod.mk.inj h
      exact ⟨0, ⟨by simp, blank.mono (by omega) (Nat.le_refl _)⟩, rfl⟩
  | cons piece rest ih =>
      obtain ⟨hPiece, hRest⟩ := List.forall_mem_cons.mp hPieces
      rw [List.flatten_cons] at blank ⊢
      have hFirst := flash.program_confined offset piece
      rw [programVerified] at h
      split at h
      case h_1 error next hProgram =>
          rw [hProgram] at hFirst
          obtain ⟨rfl, rfl⟩ := Prod.mk.inj h
          exact ⟨0, .first hPiece blank hFirst, Nat.succ_pos _⟩
      case h_2 next hProgram =>
          rw [hProgram] at hFirst
          split at h
          case isFalse =>
              obtain ⟨rfl, rfl⟩ := Prod.mk.inj h
              exact ⟨0, .first hPiece blank hFirst, Nat.succ_pos _⟩
          case isTrue hBack =>
              have hLater := programVerified_confined next (offset + piece.length) rest
              rw [h] at hLater
              -- Whatever became of this word, the rest is as blank as it was.
              have hBlank : next.Blank (offset + piece.length)
                  (offset + piece.length + rest.flatten.length) := by
                rw [List.length_append, ← Nat.add_assoc] at blank
                exact (blank.mono (Nat.le_add_right ..) (Nat.le_refl _)).confined hFirst
                  (.inr (Nat.le_refl _))
              obtain ⟨count, progress, hCount⟩ := ih hRest hBlank h
              refine ⟨count + 1, .next hPiece hBack hLater progress, ?_⟩
              cases done with
              | true => exact congrArg (· + 1) hCount
              | false => exact Nat.succ_lt_succ hCount

/-! ## From the status to the flash -/

/-- What can become of a page, with the flash that is left. -/
inductive Outcome (flash : Flash) (page : Page) : FlashStatus → Flash → Prop where
  | badPage (hPage : Layout.isFirmwarePage page.index = false) : Outcome flash page .badPage flash
  | badChecksum (hPage : Layout.isFirmwarePage page.index = true)
      (hSum : checksum page.data.toList ≠ page.checksum) : Outcome flash page .badChecksum flash
  /-- Erasing was refused. -/
  | refused (hPage : Layout.isFirmwarePage page.index = true)
      (hSum : checksum page.data.toList = page.checksum) : Outcome flash page .eraseFailed flash
  /-- Erasing was accepted, and the page does not read as blank after that. -/
  | kept (hPage : Layout.isFirmwarePage page.index = true)
      (hSum : checksum page.data.toList = page.checksum) :
      Outcome flash page .eraseFailed (flash.carryOut (.erase (Layout.pageOffset page.index)
        (Layout.pageOffset page.index + Layout.pageSize)))
  /-- The page was blank, and its words were programmed up to the one with this number. -/
  | programmed (hPage : Layout.isFirmwarePage page.index = true)
      (hSum : checksum page.data.toList = page.checksum) {after : Flash} {count : Nat}
      (progress : Progress (Layout.pageOffset page.index) page.data.toList after count)
      {done : Bool} (hCount : if done then count = Layout.pageSize / Flash.wordSize
        else count < Layout.pageSize / Flash.wordSize) :
      Outcome flash page (if done then .success else .verifyFailed) after

theorem length_words_page (page : Page) :
    ((words page.data.toList).map toWire).length = Layout.pageSize / Flash.wordSize := by
  rw [List.length_map, length_words, Vector.length_toList]
  rfl

/-- Flashing a page has one of these outcomes. -/
theorem outcome_flashPage (flash : Flash) (page : Page) :
    Outcome flash page (flashPage flash page).1 (flashPage flash page).2 := by
  cases hPage : Layout.isFirmwarePage page.index with
  | false =>
      rw [flashPage, hPage]
      exact .badPage hPage
  | true =>
      by_cases hSum : checksum page.data.toList = page.checksum
      · rcases flashPage_cases flash hPage hSum rfl with
          ⟨_, h⟩ | ⟨_, h⟩ | ⟨hBlank, done, after, hProgram, h⟩
        · rw [h]
          exact .refused hPage hSum
        · rw [h]
          exact .kept hPage hSum
        · rw [h]
          have hPieces : ∀ piece ∈ (words page.data.toList).map toWire,
              piece.length = Flash.wordSize := by
            simp [Flash.wordSize]
          have hLength : ((words page.data.toList).map toWire).flatten.length =
              Layout.pageSize := by
            rw [flatten_words_page, Vector.length_toList]
          have blank := (blank_of_isBlank hBlank).mono (Nat.le_refl _)
            (Nat.add_le_add_left (Nat.le_of_eq hLength) _)
          obtain ⟨count, progress, hCount⟩ := progress_of_programVerified hPieces blank hProgram
          rw [flatten_words_page] at progress
          rw [length_words_page] at hCount
          exact .programmed hPage hSum progress hCount
      · rw [flashPage, hPage, if_neg (by simp), if_pos hSum]
        exact .badChecksum hPage hSum

namespace Outcome

variable {flash after : Flash} {page : Page} {status : FlashStatus}

/-- A page is called bad if and only if it lies outside the firmware region. -/
theorem badPage_iff (outcome : Outcome flash page status after) :
    status = .badPage ↔ ¬(4 ≤ page.index.toNat ∧ page.index.toNat ≤ 47) := by
  rw [← Layout.isFirmwarePage_iff_index]
  cases outcome with
  | badPage hPage => simp [hPage]
  | badChecksum hPage => simp [hPage]
  | refused hPage => simp [hPage]
  | kept hPage => simp [hPage]
  | @programmed hPage _ _ _ _ done => cases done <;> simp [hPage]

/-- A checksum is called bad if and only if the page would be accepted but for it. -/
theorem badChecksum_iff (outcome : Outcome flash page status after) :
    status = .badChecksum ↔ (4 ≤ page.index.toNat ∧ page.index.toNat ≤ 47) ∧
      checksum page.data.toList ≠ page.checksum := by
  rw [← Layout.isFirmwarePage_iff_index]
  cases outcome with
  | badPage hPage => simp [hPage]
  | badChecksum hPage hSum => simp [hPage, hSum]
  | refused _ hSum => simp [hSum]
  | kept _ hSum => simp [hSum]
  | @programmed _ hSum _ _ _ done => cases done <;> simp [hSum]

/-- A page that was turned down is neither erased nor programmed. -/
theorem untouched (outcome : Outcome flash page status after)
    (h : status = .badPage ∨ status = .badChecksum) : after = flash := by
  cases outcome with
  | badPage => rfl
  | badChecksum => rfl
  | refused => rfl
  | kept => simp at h
  | @programmed _ _ _ _ _ done => cases done <;> simp at h

/-- After a success the page is in flash. -/
theorem stored (outcome : Outcome flash page status after) (h : status = .success) :
    after.slice (Layout.pageOffset page.index) Layout.pageSize = page.data.toList := by
  cases outcome with
  | badPage => cases h
  | badChecksum => cases h
  | refused => cases h
  | kept => cases h
  | @programmed _ _ _ count progress done hCount =>
      cases done with
      | false => cases h
      | true =>
          obtain rfl : count = Layout.pageSize / Flash.wordSize := hCount
          have hStored := progress.stored
          rwa [List.take_of_length_le (by rw [Vector.length_toList]; decide)] at hStored

/-- A page that was not erased was not programmed either. -/
theorem unprogrammed (outcome : Outcome flash page status after) (h : status = .eraseFailed) :
    after = flash ∨ after = flash.carryOut (.erase (Layout.pageOffset page.index)
      (Layout.pageOffset page.index + Layout.pageSize)) := by
  cases outcome with
  | badPage => cases h
  | badChecksum => cases h
  | refused => exact .inl rfl
  | kept => exact .inr rfl
  | @programmed _ _ _ _ _ done => cases done <;> cases h

/-- Programming a page stopped at one of its words. -/
theorem stopped (outcome : Outcome flash page status after) (h : status = .verifyFailed) :
    ∃ word, word < Layout.pageSize / Flash.wordSize ∧
      Progress (Layout.pageOffset page.index) page.data.toList after word := by
  cases outcome with
  | badPage => cases h
  | badChecksum => cases h
  | refused => cases h
  | kept => cases h
  | @programmed _ _ _ count progress done hCount =>
      cases done with
      | true => cases h
      | false => exact ⟨count, hCount, progress⟩

end Outcome

/-- What the status of a page tells, whatever the flash held and whatever defects it has. A page
that is not the firmware's or does not match its checksum is turned down before anything is done to
the flash. In any other case only that page is changed: it holds the data, or it was at most erased,
or it holds the data up to some word and is blank behind that word. A flash without defects takes
every page that is not turned down. -/
theorem page_outcome (flash : Flash) (page : Page) {status : FlashStatus} {after : Flash}
    (h : flashPage flash page = (status, after)) {offset : Nat}
    (hOffset : offset = page.index.toNat * Layout.pageSize) :
    (status = .badPage ↔ ¬(4 ≤ page.index.toNat ∧ page.index.toNat ≤ 47)) ∧
      (status = .badChecksum ↔ (4 ≤ page.index.toNat ∧ page.index.toNat ≤ 47) ∧
        checksum page.data.toList ≠ page.checksum) ∧
      (status = .badPage ∨ status = .badChecksum → after = flash) ∧
      Flash.Confined offset (offset + Layout.pageSize) flash after ∧
      (∀ i, i < offset ∨ offset + Layout.pageSize ≤ i → after.bytes[i]? = flash.bytes[i]?) ∧
      (status = .success → after.slice offset Layout.pageSize = page.data.toList) ∧
      (status = .eraseFailed → after = flash ∨
        after = flash.carryOut (.erase offset (offset + Layout.pageSize))) ∧
      (status = .verifyFailed → ∃ word, word < Layout.pageSize / Flash.wordSize ∧
        after.slice offset (Flash.wordSize * word) =
          page.data.toList.take (Flash.wordSize * word) ∧
        after.Blank (offset + Flash.wordSize * word + Flash.wordSize)
          (offset + Layout.pageSize)) ∧
      (flash.Sound → SelfCheck.limit ≤ flash.bytes.size → 4 ≤ page.index.toNat →
        page.index.toNat ≤ 47 → checksum page.data.toList = page.checksum →
          status = .success) := by
  have outcome := outcome_flashPage flash page
  have confined := flashPage_confined_page flash page
  rw [h] at outcome confined
  obtain rfl : offset = Layout.pageOffset page.index := hOffset
  refine ⟨outcome.badPage_iff, outcome.badChecksum_iff, outcome.untouched, confined,
    fun i hOutside => confined.outside hOutside, outcome.stored, outcome.unprogrammed, ?_, ?_⟩
  · intro hStatus
    obtain ⟨word, hWord, progress⟩ := outcome.stopped hStatus
    have hBehind := progress.behind
    rw [Vector.length_toList] at hBehind
    exact ⟨word, hWord, progress.stored, hBehind⟩
  · intro sound hInside hLow hHigh hSum
    have hPage := (Layout.isFirmwarePage_iff_index page.index).mpr ⟨hLow, hHigh⟩
    have hSuccess := (flashPage_sound sound hInside hPage hSum).1
    rwa [h] at hSuccess

/-- A blank flash whose first firmware word is stuck. -/
def stuckFlash : Flash :=
  { bytes := Array.replicate Layout.flashSize 0xFF, stuckWords := [4096] }

/-- Over a flash with a stuck word a page of zeros fails to verify, and what was written before that
word stands. -/
theorem page_outcome_stuck :
    ∃ (after : Flash) (word : Nat),
      flashPage stuckFlash zeroPage = (.verifyFailed, after) ∧
      word < Layout.pageSize / Flash.wordSize ∧
      after.slice 4096 (Flash.wordSize * word) =
        zeroPage.data.toList.take (Flash.wordSize * word) ∧
      after.Blank (4096 + Flash.wordSize * word + Flash.wordSize) (4096 + Layout.pageSize) := by
  have hInside : SelfCheck.limit ≤ stuckFlash.bytes.size := by
    rw [stuckFlash, Array.size_replicate]
    exact SelfCheck.limit_le_flashSize
  obtain ⟨hStatus, _⟩ := flashPage_zeroPage (rfl : stuckFlash.faults = []) rfl rfl hInside
  rcases hAfter : flashPage stuckFlash zeroPage with ⟨status, after⟩
  rw [hAfter] at hStatus
  obtain rfl : status = .verifyFailed := hStatus
  have hOffset : 4096 = zeroPage.index.toNat * Layout.pageSize := by decide
  obtain ⟨_, _, _, _, _, _, _, hStopped, _⟩ := page_outcome stuckFlash zeroPage hAfter hOffset
  obtain ⟨word, hWord, hStored, hBehind⟩ := hStopped rfl
  exact ⟨after, word, rfl, hWord, hStored, hBehind⟩

end Bootloader

end Multidrop
