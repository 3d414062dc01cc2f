import Multidrop.Node.Bootloader
import Multidrop.Proofs.SelfCheck

/-!
Flashing one page. Whatever defects the flash has, nothing outside the page is touched, and a page
that was refused before it was programmed is not touched either. On a flash without defects the page
holds its data afterwards.
-/

namespace Multidrop

/-- Where a page stands in flash. -/
def Layout.pageOffset (page : UInt16) : Nat :=
  page.toNat * pageSize

theorem Layout.pageAddress_sub (page : UInt16) :
    pageAddress page - flashBase = pageOffset page := by
  rw [pageAddress, Nat.add_sub_cancel_left, pageOffset]

theorem Layout.pageOffset_mod_word (page : UInt16) : pageOffset page % Flash.wordSize = 0 := by
  simp only [pageOffset, pageSize, Flash.wordSize]
  omega

theorem Layout.pageOffset_mod (page : UInt16) : pageOffset page % pageSize = 0 :=
  Nat.mul_mod_left ..

/-- A byte within a page belongs to the page that begins there. -/
theorem Layout.page_of_mem {offset i : Nat} (hPage : offset % pageSize = 0) (hLow : offset ≤ i)
    (hHigh : i < offset + pageSize) : i / pageSize * pageSize = offset := by
  simp only [pageSize] at *
  omega

/-- Pages that may be overwritten are those of the firmware region. -/
theorem Layout.isFirmwarePage_iff (page : UInt16) :
    isFirmwarePage page = true ↔
      SelfCheck.base ≤ pageOffset page ∧ pageOffset page + pageSize ≤ SelfCheck.limit := by
  have hStart : firmwareStart = 134221824 := by decide
  rw [isFirmwarePage, Bool.and_eq_true, decide_eq_true_eq, decide_eq_true_eq, SelfCheck.base_eq,
    SelfCheck.limit_eq, hStart]
  simp only [pageAddress, pageOffset, flashBase, configStart, pageSize]
  omega

namespace Bootloader

/-- Programming with verification touches only the words it is given. -/
theorem programVerified_confined (flash : Flash) (offset : Nat) (pieces : List (List UInt8)) :
    Flash.Confined offset (offset + pieces.flatten.length) flash
      (programVerified flash offset pieces).2 := by
  induction pieces generalizing flash offset with
  | nil => exact .refl ..
  | cons piece rest ih =>
      have hFirst := flash.program_confined offset piece
      rw [programVerified, List.flatten_cons, List.length_append]
      split
      case h_1 error next hProgram =>
          rw [hProgram] at hFirst
          exact hFirst.mono (Nat.le_refl _) (by omega)
      case h_2 next hProgram =>
          rw [hProgram] at hFirst
          have hHere := hFirst.mono (Nat.le_refl offset)
            (Nat.add_le_add_left (Nat.le_add_right piece.length rest.flatten.length) offset)
          split
          · exact hHere.trans ((ih next (offset + piece.length)).mono (by omega) (by omega))
          · exact hHere

/-- The words of a page are its bytes. -/
theorem flatten_words_page (page : Page) :
    ((words page.data.toList).map toWire).flatten = page.data.toList :=
  flatten_words _ (by rw [Vector.length_toList, Layout.pageSize])

/-- What becomes of a page that may be flashed and matches its checksum: it is not erased, or not
blank after that, or programmed to the end or not. -/
theorem flashPage_cases (flash : Flash) {page : Page}
    (hPage : Layout.isFirmwarePage page.index = true)
    (hSum : checksum page.data.toList = page.checksum)
    {erased : Flash} (hErased : erased = flash.carryOut (.erase (Layout.pageOffset page.index)
      (Layout.pageOffset page.index + Layout.pageSize))) :
    (∃ error, flash.erase (Layout.pageOffset page.index)
        (Layout.pageOffset page.index + Layout.pageSize) = (.error error, flash)) ∧
      flashPage flash page = (.eraseFailed, flash) ∨
    isBlank erased (Layout.pageOffset page.index) = false ∧
      flashPage flash page = (.eraseFailed, erased) ∨
    isBlank erased (Layout.pageOffset page.index) = true ∧
      ∃ done after, programVerified erased (Layout.pageOffset page.index)
          ((words page.data.toList).map toWire) = (done, after) ∧
        flashPage flash page = (if done then .success else .verifyFailed, after) := by
  rw [flashPage, hPage, if_neg (by simp), if_neg (fun h => h hSum)]
  dsimp only
  rw [Layout.pageAddress_sub]
  rcases flash.erase_cases (Layout.pageOffset page.index)
    (Layout.pageOffset page.index + Layout.pageSize) with ⟨error, hErase⟩ | hErase
  · rw [hErase]
    exact .inl ⟨⟨error, rfl⟩, rfl⟩
  · rw [hErase, ← hErased]
    dsimp only
    cases hBlank : isBlank erased (Layout.pageOffset page.index) with
    | false => exact .inr (.inl ⟨rfl, rfl⟩)
    | true =>
        refine .inr (.inr ⟨rfl, ?_⟩)
        rw [if_pos rfl]
        split
        all_goals
          next after hDone => exact ⟨_, after, hDone, rfl⟩

/-- A page that is rejected leaves the flash as it was. -/
theorem flashPage_of_rejected (flash : Flash) {page : Page}
    (h : ¬(Layout.isFirmwarePage page.index = true ∧
      checksum page.data.toList = page.checksum)) :
    ((flashPage flash page).1 = .badPage ∨ (flashPage flash page).1 = .badChecksum) ∧
      (flashPage flash page).2 = flash := by
  unfold flashPage
  cases hPage : Layout.isFirmwarePage page.index with
  | false => exact ⟨.inl rfl, rfl⟩
  | true =>
      have hSum : checksum page.data.toList ≠ page.checksum := fun hSum => h ⟨hPage, hSum⟩
      rw [if_neg (by simp), if_pos hSum]
      exact ⟨.inr rfl, rfl⟩

/-- Whatever becomes of a page, no byte outside its place changes. -/
theorem flashPage_confined_page (flash : Flash) (page : Page) :
    Flash.Confined (Layout.pageOffset page.index) (Layout.pageOffset page.index + Layout.pageSize)
      flash (flashPage flash page).2 := by
  by_cases hAccepted : Layout.isFirmwarePage page.index = true ∧
      checksum page.data.toList = page.checksum
  · have hErase := Flash.Confined.of_erase flash (Layout.pageOffset page.index)
      (Layout.pageOffset page.index + Layout.pageSize)
    rcases flashPage_cases flash hAccepted.1 hAccepted.2 rfl with
      ⟨_, h⟩ | ⟨_, h⟩ | ⟨_, done, after, hProgram, h⟩
    · rw [h]
      exact .refl ..
    · rw [h]
      exact hErase
    · have hWords := programVerified_confined (flash.carryOut (.erase
        (Layout.pageOffset page.index) (Layout.pageOffset page.index + Layout.pageSize)))
        (Layout.pageOffset page.index) ((words page.data.toList).map toWire)
      rw [flatten_words_page, Vector.length_toList, hProgram] at hWords
      rw [h]
      exact hErase.trans hWords
  · rw [(flashPage_of_rejected flash hAccepted).2]
    exact .refl ..

/-- Only the firmware region is ever flashed. -/
theorem flashPage_confined (flash : Flash) (page : Page) :
    Flash.Confined SelfCheck.base SelfCheck.limit flash (flashPage flash page).2 := by
  by_cases hPage : Layout.isFirmwarePage page.index = true
  · obtain ⟨hStart, hStop⟩ := (Layout.isFirmwarePage_iff page.index).mp hPage
    exact (flashPage_confined_page flash page).mono hStart hStop
  · rw [(flashPage_of_rejected flash fun h => hPage h.1).2]
    exact .refl ..

/-- A page that is blank and can be read is seen to be blank. -/
theorem isBlank_of_blank {flash : Flash} (readable : flash.Readable) {offset : Nat}
    (hInside : offset + Layout.pageSize ≤ flash.bytes.size)
    (blank : flash.Blank offset (offset + Layout.pageSize)) : isBlank flash offset = true := by
  rw [isBlank, List.all_eq_true]
  intro i hMem
  have hSize : Layout.pageSize = 1024 := rfl
  have hChunk : blankChunk = 64 := rfl
  have hChunks : i < Layout.pageSize / blankChunk := List.mem_range.mp hMem
  have hEnd : offset + i * blankChunk + blankChunk ≤ offset + Layout.pageSize := by
    rw [hSize, hChunk] at *
    omega
  rw [readable.read (Nat.le_trans hEnd hInside), blank.slice (Nat.le_add_right ..) hEnd]
  simp

/-- To erase a page that is not stuck makes it blank. -/
theorem blank_of_erase (flash : Flash) {offset : Nat} (hPage : offset % Layout.pageSize = 0)
    (hInside : offset + Layout.pageSize ≤ flash.bytes.size)
    (hStuck : flash.stuckPages.contains offset = false) :
    (flash.carryOut (.erase offset (offset + Layout.pageSize))).Blank offset
      (offset + Layout.pageSize) := by
  intro i hLow hHigh
  have hOwn := Layout.page_of_mem hPage hLow hHigh
  have hRange : offset ≤ i ∧ i < offset + (offset + Layout.pageSize - offset) := by omega
  have hOld : flash.bytes[i]? = some flash.bytes[i] := Array.getElem?_eq_getElem (by omega)
  simp only [Flash.carryOut, Flash.getElem?_erased, hOwn, hStuck, hRange, and_self, if_true, hOld,
    Option.map_some]

/-- To erase a stuck page changes nothing. -/
theorem bytes_of_erase_stuck (flash : Flash) {offset : Nat} (hPage : offset % Layout.pageSize = 0)
    (hStuck : flash.stuckPages.contains offset = true) :
    (flash.carryOut (.erase offset (offset + Layout.pageSize))).bytes = flash.bytes := by
  apply Array.ext_getElem?
  intro i
  rw [Flash.carryOut, Flash.getElem?_erased]
  split
  case isTrue hIn =>
      have hOwn := Layout.page_of_mem hPage hIn.1.1 (by omega)
      rw [hOwn, hStuck] at hIn
      cases hIn.2
  case isFalse => rfl

/-- A page that was not programmed has not changed: it was rejected, erasing it was refused, or it
is stuck. -/
theorem bytes_of_not_programmed {flash : Flash} (readable : flash.Readable)
    (hBounds : SelfCheck.limit ≤ flash.bytes.size) {page : Page}
    (hSuccess : (flashPage flash page).1 ≠ .success)
    (hVerify : (flashPage flash page).1 ≠ .verifyFailed) :
    (flashPage flash page).2.bytes = flash.bytes := by
  by_cases hAccepted : Layout.isFirmwarePage page.index = true ∧
      checksum page.data.toList = page.checksum
  · have hRange := (Layout.isFirmwarePage_iff page.index).mp hAccepted.1
    rcases flashPage_cases flash hAccepted.1 hAccepted.2 rfl with
      ⟨_, h⟩ | ⟨hBlank, h⟩ | ⟨_, done, after, _, h⟩
    · rw [h]
    · rw [h]
      cases hStuck : flash.stuckPages.contains (Layout.pageOffset page.index) with
      | true => exact bytes_of_erase_stuck flash (Layout.pageOffset_mod page.index) hStuck
      | false =>
          have hInside := Nat.le_trans hRange.2 hBounds
          have blank := blank_of_erase flash (Layout.pageOffset_mod page.index) hInside hStuck
          have hErase := Flash.Confined.of_erase flash (Layout.pageOffset page.index)
            (Layout.pageOffset page.index + Layout.pageSize)
          rw [← hErase.size] at hInside
          rw [isBlank_of_blank (hErase.readable readable) hInside blank] at hBlank
          cases hBlank
    · rw [h] at hSuccess hVerify
      cases done with
      | true => exact absurd rfl hSuccess
      | false => exact absurd rfl hVerify
  · rw [(flashPage_of_rejected flash hAccepted).2]

/-- On a blank range of a flash without defects all words are stored and read back. -/
theorem programVerified_sound {flash : Flash} (sound : flash.Sound) {offset : Nat}
    {pieces : List (List UInt8)} (hAligned : offset % Flash.wordSize = 0)
    (hPieces : ∀ piece ∈ pieces, piece.length = Flash.wordSize)
    (hInside : offset + pieces.flatten.length ≤ flash.bytes.size)
    (blank : flash.Blank offset (offset + pieces.flatten.length)) :
    (programVerified flash offset pieces).1 = true ∧
      (programVerified flash offset pieces).2.slice offset pieces.flatten.length =
        pieces.flatten := by
  induction pieces generalizing flash offset with
  | nil => exact ⟨rfl, Flash.slice_zero ..⟩
  | cons piece rest ih =>
      have hPiece : piece.length = Flash.wordSize := hPieces piece (by simp)
      rw [List.flatten_cons, List.length_append] at hInside blank ⊢
      have hFirst := Flash.Confined.of_program flash offset piece
      have hStored := Flash.Blank.slice_program sound.stuckWords
        (blank.mono (Nat.le_refl _) (by omega) : flash.Blank offset (offset + piece.length))
      rw [programVerified, Flash.program_of_no_faults sound.faults hAligned
        (by rw [hPiece, Nat.mod_self]) (by omega)]
      generalize flash.carryOut (.program offset piece) = next at hFirst hStored ⊢
      have hNext := hFirst.sound sound
      have hEnd : offset + piece.length ≤ next.bytes.size := by
        rw [hFirst.size]
        omega
      have hBack : readsBack next offset piece = true := by
        rw [readsBack, hNext.readable.read hEnd, hStored]
        exact beq_self_eq_true piece
      have hBehind : (offset + piece.length) % Flash.wordSize = 0 := by
        rw [hPiece, Nat.add_mod_right, hAligned]
      obtain ⟨hDone, hRest⟩ := ih hNext hBehind
        (fun other hMem => hPieces other (by simp [hMem])) (by rw [hFirst.size]; omega)
        ((blank.mono (by omega) (by omega)).confined hFirst (.inr (Nat.le_refl _)))
      have hAfter := programVerified_confined next (offset + piece.length) rest
      dsimp only
      rw [if_pos hBack]
      refine ⟨hDone, ?_⟩
      rw [Flash.slice_add _ (by rw [hAfter.size]; exact hEnd), hRest,
        hAfter.slice (.inl (Nat.le_refl _)), hStored]

/-- Where erasing is neither refused nor without effect, a page that may be flashed and matches its
checksum is programmed over a blank page. -/
theorem flashPage_programs {flash : Flash} (hFaults : flash.faults = [])
    (hBounds : SelfCheck.limit ≤ flash.bytes.size) {page : Page}
    (hPage : Layout.isFirmwarePage page.index = true)
    (hSum : checksum page.data.toList = page.checksum)
    (hStuck : flash.stuckPages.contains (Layout.pageOffset page.index) = false) {erased : Flash}
    (hErased : erased = flash.carryOut (.erase (Layout.pageOffset page.index)
      (Layout.pageOffset page.index + Layout.pageSize))) :
    erased.Blank (Layout.pageOffset page.index) (Layout.pageOffset page.index + Layout.pageSize) ∧
      ∃ done after, programVerified erased (Layout.pageOffset page.index)
          ((words page.data.toList).map toWire) = (done, after) ∧
        flashPage flash page = (if done then .success else .verifyFailed, after) := by
  have hInside := Nat.le_trans ((Layout.isFirmwarePage_iff page.index).mp hPage).2 hBounds
  have hAligned := Layout.pageOffset_mod page.index
  have hErase := Flash.Confined.of_erase flash (Layout.pageOffset page.index)
    (Layout.pageOffset page.index + Layout.pageSize)
  have blank := blank_of_erase flash hAligned hInside hStuck
  rw [← hErased] at hErase blank
  have readable : flash.Readable := by simp [Flash.Readable, hFaults]
  refine ⟨blank, ?_⟩
  rcases flashPage_cases flash hPage hSum hErased with
    ⟨⟨error, hError⟩, _⟩ | ⟨hBlank, _⟩ | ⟨_, hProgrammed⟩
  · rw [Flash.erase_of_no_faults hFaults hAligned (by rw [Nat.add_mod_right, hAligned])
      (Nat.le_add_right ..) hInside] at hError
    cases hError
  · rw [isBlank_of_blank (hErase.readable readable) (by rw [hErase.size]; exact hInside) blank]
      at hBlank
    cases hBlank
  · exact hProgrammed

/-- A flash without defects takes every page that belongs to the firmware. -/
theorem flashPage_sound {flash : Flash} (sound : flash.Sound)
    (hBounds : SelfCheck.limit ≤ flash.bytes.size) {page : Page}
    (hPage : Layout.isFirmwarePage page.index = true)
    (hSum : checksum page.data.toList = page.checksum) :
    (flashPage flash page).1 = .success ∧
      (flashPage flash page).2.slice (Layout.pageOffset page.index) Layout.pageSize =
        page.data.toList := by
  have hInside := Nat.le_trans ((Layout.isFirmwarePage_iff page.index).mp hPage).2 hBounds
  have hWords := flatten_words_page page
  have hLength : page.data.toList.length = Layout.pageSize := Vector.length_toList
  have hErase := Flash.Confined.of_erase flash (Layout.pageOffset page.index)
    (Layout.pageOffset page.index + Layout.pageSize)
  obtain ⟨blank, done, after, hProgram, h⟩ := flashPage_programs sound.faults hBounds hPage hSum
    (by rw [sound.stuckPages, List.contains_nil]) rfl
  have hPieces : ∀ piece ∈ (words page.data.toList).map toWire,
      piece.length = Flash.wordSize := by
    simp [Flash.wordSize]
  obtain ⟨hDone, hStored⟩ := programVerified_sound (hErase.sound sound)
    (Layout.pageOffset_mod_word page.index) hPieces
    (by rw [hWords, hLength, hErase.size]; exact hInside) (by rw [hWords, hLength]; exact blank)
  rw [hProgram] at hDone hStored
  rw [hWords, hLength] at hStored
  dsimp only at hDone
  rw [h, hDone]
  exact ⟨rfl, hStored⟩

/-- A stuck word that is not to stay blank ends the programming before anything has changed. -/
theorem programVerified_stuck {flash : Flash} (hFaults : flash.faults = []) {offset : Nat}
    {piece : List UInt8} (rest : List (List UInt8)) (hAligned : offset % Flash.wordSize = 0)
    (hPiece : piece.length = Flash.wordSize) (hInside : offset + Flash.wordSize ≤ flash.bytes.size)
    (blank : flash.Blank offset (offset + Flash.wordSize))
    (hStuck : flash.stuckWords.contains offset = true)
    (hChange : piece ≠ List.replicate Flash.wordSize 0xFF) :
    programVerified flash offset (piece :: rest) =
      (false, flash.carryOut (.program offset piece)) ∧
      (flash.carryOut (.program offset piece)).bytes = flash.bytes := by
  have hBytes : (flash.carryOut (.program offset piece)).bytes = flash.bytes := by
    apply Array.ext_getElem?
    intro i
    by_cases hIn : offset ≤ i ∧ i < offset + Flash.wordSize
    · have hOwn : i / Flash.wordSize * Flash.wordSize = offset := by
        simp only [Flash.wordSize] at *
        omega
      rw [Flash.carryOut, Flash.getElem?_programmed, hOwn, hStuck, if_neg (by simp)]
    · refine Flash.getElem?_carryOut_of_outside flash _ i ?_
      simp only [Flash.Change.start, Flash.Change.stop, hPiece]
      omega
  have readable : flash.Readable := by simp [Flash.Readable, hFaults]
  have hConfined := Flash.Confined.of_program flash offset piece
  have hRead : readsBack (flash.carryOut (.program offset piece)) offset piece = false := by
    have hEnd : offset + Flash.wordSize ≤
        (flash.carryOut (.program offset piece)).bytes.size := by
      rw [hConfined.size]
      exact hInside
    rw [readsBack, hPiece, (hConfined.readable readable).read hEnd,
      Flash.slice_congr fun i _ _ => congrArg (·[i]?) hBytes,
      blank.slice (Nat.le_refl _) (Nat.le_refl _)]
    exact beq_false_of_ne (Ne.symm hChange)
  refine ⟨?_, hBytes⟩
  rw [programVerified, Flash.program_of_no_faults hFaults hAligned (by rw [hPiece, Nat.mod_self])
    (by rw [hPiece]; exact hInside)]
  dsimp only
  rw [hRead, if_neg (by simp)]

/-- A page whose first word is stuck is given up once it was erased. -/
theorem flashPage_stuck {flash : Flash} (hFaults : flash.faults = [])
    (hBounds : SelfCheck.limit ≤ flash.bytes.size) {page : Page}
    (hPage : Layout.isFirmwarePage page.index = true)
    (hSum : checksum page.data.toList = page.checksum)
    (hErased : flash.stuckPages.contains (Layout.pageOffset page.index) = false)
    (hStuck : flash.stuckWords.contains (Layout.pageOffset page.index) = true)
    {piece : List UInt8} {rest : List (List UInt8)}
    (hWords : (words page.data.toList).map toWire = piece :: rest)
    (hChange : piece ≠ List.replicate Flash.wordSize 0xFF) :
    (flashPage flash page).1 = .verifyFailed ∧
      (flashPage flash page).2.Blank (Layout.pageOffset page.index)
        (Layout.pageOffset page.index + Layout.pageSize) := by
  have hInside := Nat.le_trans ((Layout.isFirmwarePage_iff page.index).mp hPage).2 hBounds
  have hWord : Flash.wordSize ≤ Layout.pageSize := by decide
  have hErase := Flash.Confined.of_erase flash (Layout.pageOffset page.index)
    (Layout.pageOffset page.index + Layout.pageSize)
  obtain ⟨blank, done, after, hProgram, h⟩ :=
    flashPage_programs hFaults hBounds hPage hSum hErased rfl
  have hPiece : piece.length = Flash.wordSize := by
    have hAll : ∀ piece ∈ (words page.data.toList).map toWire,
        piece.length = Flash.wordSize := by
      simp [Flash.wordSize]
    exact hAll piece (by rw [hWords]; exact List.mem_cons_self)
  generalize flash.carryOut (.erase (Layout.pageOffset page.index)
    (Layout.pageOffset page.index + Layout.pageSize)) = erased at hErase blank hProgram
  obtain ⟨hStopped, hBytes⟩ := programVerified_stuck (hErase.faults.trans hFaults) rest
    (Layout.pageOffset_mod_word page.index) hPiece (by rw [hErase.size]; omega)
    (blank.mono (Nat.le_refl _) (Nat.add_le_add_left hWord _))
    (by rw [hErase.stuckWords]; exact hStuck) hChange
  rw [hWords, hStopped] at hProgram
  obtain ⟨rfl, rfl⟩ := Prod.mk.inj hProgram
  rw [h]
  refine ⟨rfl, fun i hLow hHigh => ?_⟩
  rw [hBytes]
  exact blank i hLow hHigh

end Bootloader

end Multidrop
