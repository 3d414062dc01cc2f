import Multidrop.Proofs.Bootloader.Request
import Multidrop.Proofs.Image

/-!
What a bootloader tells about the firmware. It answers from what it found at its last check, and
checks again once a page was written successfully. A page that failed while it was programmed has
changed the firmware as well but does not make the bootloader check again: until a page succeeds,
what is told is what was true of the flash before.
-/

namespace Multidrop.Bootloader

/-- What there is to tell about the firmware that is in a flash. -/
def tell (flash : Flash) (version : UInt32) : Identity :=
  identify flash version (checkFirmware flash)

/-- What there is to tell depends on the firmware region and on the defects alone. -/
theorem tell_congr {first second : Flash} (hFaults : first.faults = second.faults)
    (hSize : first.bytes.size = second.bytes.size)
    (h : ∀ i, SelfCheck.base ≤ i → i < SelfCheck.limit → first.bytes[i]? = second.bytes[i]?)
    (version : UInt32) : tell first version = tell second version := by
  rw [tell, tell, checkFirmware_congr hFaults hSize h]
  cases checkFirmware second with
  | error error => rfl
  | ok info => simp only [identify, firmwareName_congr hFaults hSize h info]

/-- What the requests executed so far say of a bootloader: the flash at its last check, and what
became of each page since. -/
structure Ledger where
  checked : Flash
  pages : List FlashStatus

namespace Ledger

/-- Questions lead to a check after a page was written, pages are noted. -/
def after (ledger : Ledger) (execution : Execution Bootloader) : Ledger :=
  match execution.request.header.command, execution.request.payload with
  | .flashFirmware, .page page =>
    { ledger with pages := ledger.pages ++ [(flashPage execution.commands.flash page).1] }
  | .getData, _ =>
    if .success ∈ ledger.pages then ⟨execution.commands.flash, []⟩ else ledger
  | _, _ => ledger

/-- The ledger agrees with what a bootloader remembers, and with its flash as far as the pages tell
that it did not change. -/
structure Describes (ledger : Ledger) (bootloader : Bootloader) : Prop where
  readable : bootloader.flash.Readable
  inside : SelfCheck.limit ≤ bootloader.flash.bytes.size
  stale : bootloader.stale = true ↔ .success ∈ ledger.pages
  identity : bootloader.identity = tell ledger.checked bootloader.version
  unchanged : .success ∉ ledger.pages → .verifyFailed ∉ ledger.pages →
    tell bootloader.flash bootloader.version = tell ledger.checked bootloader.version

/-- A bootloader that just came up describes the flash it came up over. -/
theorem describes_start {flash : Flash} (readable : flash.Readable)
    (hInside : SelfCheck.limit ≤ flash.bytes.size) (chip : Chip) (version : UInt32) :
    Describes ⟨flash, []⟩ (start flash chip version) :=
  ⟨readable, hInside, by simp [start], rfl, fun _ _ => rfl⟩

/-- What a bootloader answers from is what was true at its last check, or is true now. -/
theorem Describes.told {ledger : Ledger} {bootloader : Bootloader}
    (describes : Describes ledger bootloader) :
    bootloader.refresh.identity =
      if .success ∈ ledger.pages then tell bootloader.flash bootloader.version
      else tell ledger.checked bootloader.version := by
  by_cases hSuccess : FlashStatus.success ∈ ledger.pages
  · rw [if_pos hSuccess, refresh, if_pos (describes.stale.mpr hSuccess)]
    rfl
  · rw [if_neg hSuccess, refresh, if_neg (fun h => hSuccess (describes.stale.mp h))]
    exact describes.identity

/-- Until a page fails while it is programmed, what is told is true. -/
theorem Describes.told_true {ledger : Ledger} {bootloader : Bootloader}
    (describes : Describes ledger bootloader)
    (h : .success ∈ ledger.pages ∨ .verifyFailed ∉ ledger.pages) :
    bootloader.refresh.identity = tell bootloader.flash bootloader.version := by
  rw [describes.told]
  split
  case isTrue => rfl
  case isFalse hSuccess =>
      exact (describes.unchanged hSuccess (h.resolve_left hSuccess)).symm

/-- A page that was flashed, or was not, is entered and changes nothing of what is told. -/
theorem Describes.page {ledger : Ledger} {bootloader : Bootloader}
    (describes : Describes ledger bootloader) (page : Page) :
    Describes { ledger with pages := ledger.pages ++ [(flashPage bootloader.flash page).1] }
      (bootloader.replacePage page).2 := by
  have hConfined := flashPage_confined bootloader.flash page
  rw [replacePage_eq]
  refine ⟨hConfined.readable describes.readable, ?_, ?_, describes.identity, ?_⟩
  · exact Nat.le_trans describes.inside (Nat.le_of_eq hConfined.size.symm)
  · rw [Bool.or_eq_true, describes.stale, beq_iff_eq, List.mem_append, List.mem_singleton]
    exact or_congr Iff.rfl eq_comm
  · intro hSuccess hVerify
    simp only [List.mem_append, List.mem_singleton, not_or] at hSuccess hVerify
    have hBytes := bytes_of_not_programmed describes.readable describes.inside
      (Ne.symm hSuccess.2) (Ne.symm hVerify.2)
    refine (tell_congr hConfined.faults hConfined.size (fun i _ _ => ?_) _).trans
      (describes.unchanged hSuccess.1 hVerify.1)
    exact congrArg (·[i]?) hBytes

/-- Once a page was flashed successfully, the next question has everything looked up again. -/
theorem Describes.refresh {ledger : Ledger} {bootloader : Bootloader}
    (describes : Describes ledger bootloader) :
    Describes (if .success ∈ ledger.pages then ⟨bootloader.flash, []⟩ else ledger)
      bootloader.refresh := by
  rw [Bootloader.refresh]
  by_cases hSuccess : FlashStatus.success ∈ ledger.pages
  · rw [if_pos hSuccess, if_pos (describes.stale.mpr hSuccess)]
    exact describes_start describes.readable describes.inside _ _
  · rw [if_neg hSuccess, if_neg (fun h => hSuccess (describes.stale.mp h))]
    exact describes

/-- What happens to the configuration store is none of the firmware's concern. -/
theorem Describes.confined {ledger : Ledger} {bootloader : Bootloader}
    (describes : Describes ledger bootloader) {flash : Flash}
    (hConfined : Flash.Confined Store.standard.start Store.standard.stop bootloader.flash flash) :
    Describes ledger { bootloader with flash } := by
  refine ⟨hConfined.readable describes.readable, ?_, describes.stale, describes.identity, ?_⟩
  · exact Nat.le_trans describes.inside (Nat.le_of_eq hConfined.size.symm)
  · intro hSuccess hVerify
    refine (tell_congr hConfined.faults hConfined.size (fun i _ hStop => ?_) _).trans
      (describes.unchanged hSuccess hVerify)
    have hStart : SelfCheck.limit ≤ Store.standard.start := by decide
    exact hConfined.outside (.inl (Nat.lt_of_lt_of_le hStop hStart))

theorem after_page {ledger : Ledger} {execution : Execution Bootloader} {page : Page}
    (hCommand : execution.request.header.command = .flashFirmware)
    (hPayload : execution.request.payload = .page page) :
    ledger.after execution =
      { ledger with pages := ledger.pages ++ [(flashPage execution.commands.flash page).1] } := by
  rw [after, hCommand, hPayload]

theorem after_getData {ledger : Ledger} {execution : Execution Bootloader}
    (hCommand : execution.request.header.command = .getData) :
    ledger.after execution =
      if .success ∈ ledger.pages then ⟨execution.commands.flash, []⟩ else ledger := by
  rw [after, hCommand]

theorem after_other {ledger : Ledger} {execution : Execution Bootloader}
    (hData : execution.request.header.command ≠ .getData)
    (hPage : ∀ page, execution.request.header.command = .flashFirmware →
      execution.request.payload ≠ .page page) :
    ledger.after execution = ledger := by
  unfold after
  split
  · next page hCommand hPayload => exact absurd hPayload (hPage page hCommand)
  · next hCommand => exact absurd hCommand hData
  · rfl

/-- One request keeps the ledger right. -/
theorem Describes.after {ledger : Ledger} {execution : Execution Bootloader}
    (describes : Describes ledger execution.commands) :
    Describes (ledger.after execution) execution.after := by
  change Describes _ (execute execution.commands execution.request execution.session).2
  rcases execution.commands.execute_cases execution.request execution.session with
    ⟨page, hCommand, hPayload, h⟩ | ⟨hCommand, h⟩ | ⟨hCommand, h⟩ |
      ⟨⟨hData, hPage⟩, flash, hConfined, h⟩
  · rw [after_page hCommand hPayload, h]
    exact describes.page page
  · rw [after_other (by simp [hCommand]) (by simp [hCommand]), h]
    exact ⟨describes.readable, describes.inside, describes.stale, describes.identity,
      describes.unchanged⟩
  · rw [after_getData hCommand, h, share_getData _ hCommand]
    exact describes.refresh
  · rw [after_other hData hPage, h]
    exact describes.confined hConfined

end Ledger

/-- A question is answered by the identity as it is then. -/
theorem actions_of_question {execution : Execution Bootloader} {item : Query}
    (hCommand : execution.request.header.command = .getData)
    (hItem : execution.request.payload = .query item) :
    execution.actions = execution.commands.refresh.identity.answer execution.session item := by
  obtain ⟨bootloader, ⟨header, payload⟩, session⟩ := execution
  dsimp only at hCommand hItem
  subst hItem
  exact congrArg Prod.fst (bootloader.execute_query hCommand item session)

/-- The answer that is true of a flash. -/
def truth (execution : Execution Bootloader) (flash : Flash) (item : Query) : List Action :=
  (tell flash execution.commands.version).answer execution.session item

/-- At each execution of a run the bootloader describes what its ledger says. -/
theorem Ledger.describes_in_run {flash : Flash} (readable : flash.Readable)
    (hInside : SelfCheck.limit ≤ flash.bytes.size) {chip : Chip} {version : UInt32}
    {address : UInt8} {events : List Node.Event}
    {before rest : List (Execution Bootloader)} {execution : Execution Bootloader}
    (h : (Node.start (start flash chip version) address).executions events =
      before ++ execution :: rest) :
    Describes (before.foldl after ⟨flash, []⟩) execution.commands :=
  Node.known_at_execution (P := Describes) (fun _ _ known => known.after)
    (describes_start readable hInside chip version) h

/-- What is told is what was true at the last check, or is true now if a page succeeded since. -/
theorem Ledger.Describes.answered {ledger : Ledger} {execution : Execution Bootloader}
    (describes : ledger.Describes execution.commands) {item : Query}
    (hCommand : execution.request.header.command = .getData)
    (hItem : execution.request.payload = .query item) :
    execution.actions = truth execution
      (if .success ∈ ledger.pages then execution.commands.flash else ledger.checked) item := by
  rw [actions_of_question hCommand hItem, describes.told, truth]
  split
  · rfl
  · rfl

/-! ## A page that fails while it is programmed -/

/-- A page without a bit that is set. -/
def zeroPage : Page :=
  ⟨4, .replicate _ 0, checksum (List.replicate Layout.pageSize 0)⟩

theorem data_zeroPage : zeroPage.data.toList = List.replicate Layout.pageSize 0 :=
  Vector.toList_replicate

theorem words_zeroPage :
    ∃ rest, (words zeroPage.data.toList).map toWire = [0, 0, 0, 0] :: rest := by
  have hFront : List.replicate Layout.pageSize (0 : UInt8) =
      0 :: 0 :: 0 :: 0 :: List.replicate 1020 0 :=
    rfl
  rw [data_zeroPage, hFront, words, List.map_cons, toWire_ofWire_word [0, 0, 0, 0] rfl]
  exact ⟨_, rfl⟩

/-- On a flash whose first firmware word is stuck, the page is given up and no firmware is left. -/
theorem flashPage_zeroPage {flash : Flash} (hFaults : flash.faults = [])
    (hPages : flash.stuckPages = []) (hWords : flash.stuckWords = [4096])
    (hInside : SelfCheck.limit ≤ flash.bytes.size) :
    (flashPage flash zeroPage).1 = .verifyFailed ∧
      checkFirmware (flashPage flash zeroPage).2 = .error (.size 0xFFFFFFFF) := by
  have hOffset : Layout.pageOffset zeroPage.index = 4096 := by decide
  have hBase : SelfCheck.base = 4096 := SelfCheck.base_eq
  obtain ⟨rest, hRest⟩ := words_zeroPage
  have hConfined := flashPage_confined flash zeroPage
  have readable : flash.Readable := by simp [Flash.Readable, hFaults]
  obtain ⟨hStatus, blank⟩ := flashPage_stuck hFaults hInside (by decide)
    (congrArg checksum data_zeroPage) (by rw [hPages, List.contains_nil])
    (by rw [hWords, hOffset]; decide) hRest (by decide)
  rw [hOffset, ← hBase] at blank
  refine ⟨hStatus, checkFirmware_of_blank (hConfined.readable readable) ?_ blank⟩
  rw [hConfined.size]
  exact hInside

/-- The truth about the version of an accepted image is what the image says. -/
theorem truth_version_of_ok {execution : Execution Bootloader} {flash : Flash} {info : ImageInfo}
    (h : checkFirmware flash = .ok info) :
    truth execution flash .firmwareVersion = [.send (toWire info.version)] := by
  rw [truth, tell, h]
  rfl

/-- The truth about the version of what is no image is zero. -/
theorem truth_version_of_error {execution : Execution Bootloader} {flash : Flash}
    {error : FirmwareError} (h : checkFirmware flash = .error error) :
    truth execution flash .firmwareVersion = [.send (toWire (0 : UInt32))] := by
  rw [truth, tell, h]
  rfl

/-- A page of zeros and a question are executed one after the other, the question by what the page
left. -/
theorem executions_zeroPage (bootloader : Bootloader) (address : UInt8) :
    ∃ events first execution,
      (Node.start bootloader address).executions events = [first, execution] ∧
      first.commands = bootloader ∧ first.request.header.command = .flashFirmware ∧
      first.request.payload = .page zeroPage ∧
      execution.commands = (bootloader.replacePage zeroPage).2 ∧
      execution.request.header.command = .getData ∧
      execution.request.payload = .query .firmwareVersion := by
  have hPage : (Incoming.page broadcast zeroPage).WellFormed :=
    Incoming.wellFormed_page (congrArg checksum data_zeroPage)
  have hQuestion : (Incoming.question broadcast .firmwareVersion 4).WellFormed :=
    Incoming.wellFormed_question (by decide)
  obtain ⟨first, next, hFirst, hCommands, hRequest, _, hShows⟩ :=
    (Node.idle_start bootloader address).shows.executions_request hPage rfl rfl
      ((Incoming.question broadcast .firmwareVersion 4).bytes.map .byte ++ [.poll])
  obtain ⟨execution, last, hSecond, hAfter, hAsked, _, _⟩ :=
    hShows.executions_request hQuestion rfl rfl []
  rw [hSecond] at hFirst
  refine ⟨_, first, execution, hFirst, hCommands, ?_, ?_, ?_, ?_, ?_⟩
  · rw [hRequest]
    rfl
  · rw [hRequest]
    rfl
  · rw [hAfter, Execution.after, hCommands, hRequest]
    exact congrArg Prod.snd (bootloader.execute_page rfl zeroPage first.session)
  · rw [hAsked]
    rfl
  · rw [hAsked]
    rfl

/-- The smallest file of an image, with the version 7. -/
def sevenFile : List UInt8 :=
  List.replicate Layout.infoOffset 0 ++ (toWire (7 : UInt32) ++ List.replicate 8 0)

theorem length_sevenFile : sevenFile.length = Layout.nameOffset := by
  simp only [sevenFile, List.length_append, List.length_replicate, length_toWire]
  rfl

theorem version_sevenFile : ImageInfo.versionField.get? sevenFile = some 7 := by
  rw [Field.get?, ImageInfo.versionField, sevenFile, List.drop_left' List.length_replicate,
    read?_toWire]

/-- There is a flash with an accepted image of version 7 and one word that no longer takes writes.
-/
theorem exists_stuck_firmware :
    ∃ (flash : Flash) (info : ImageInfo), flash.faults = [] ∧ flash.stuckPages = [] ∧
      flash.stuckWords = [4096] ∧ SelfCheck.limit ≤ flash.bytes.size ∧
      checkFirmware flash = .ok info ∧ info.version = 7 := by
  obtain ⟨image, hImage⟩ := Host.Image.prepare_total (Nat.le_of_eq length_sevenFile.symm)
    (by rw [length_sevenFile]; decide)
  have formed := Host.Image.wellFormed_of_prepare hImage
  have hVersion : image.info.version = 7 := by
    rw [Host.Image.info, Host.Image.version_of_prepare hImage, version_sevenFile, Option.getD_some]
  have hSize := Host.Image.size_installed formed
  have hHeld := image.slice_installed
  have hFaults : image.installed.faults = [] := rfl
  generalize image.installed = installed at hSize hHeld hFaults
  have hInside : SelfCheck.limit ≤ installed.bytes.size := by
    rw [hSize]
    exact SelfCheck.limit_le_flashSize
  have readable : ({ installed with stuckPages := [], stuckWords := [4096] } : Flash).Readable := by
    simp [Flash.Readable, hFaults]
  exact ⟨{ installed with stuckPages := [], stuckWords := [4096] }, image.info, hFaults, rfl, rfl,
    hInside, checkFirmware_of_held readable hInside formed hHeld, hVersion⟩

/-- A bootloader finds an image when it comes up, is sent a page that fails, and is asked. -/
theorem stale_run :
    ∃ (flash : Flash) (events : List Node.Event) (first execution : Execution Bootloader),
      flash.Readable ∧ SelfCheck.limit ≤ flash.bytes.size ∧
      (Node.start (start flash {} 512) 3).executions events = [first, execution] ∧
      Ledger.after ⟨flash, []⟩ first = ⟨flash, [.verifyFailed]⟩ ∧
      execution.request.header.command = .getData ∧
      execution.request.payload = .query .firmwareVersion ∧
      truth execution flash .firmwareVersion = [.send (toWire (7 : UInt32))] ∧
      truth execution execution.commands.flash .firmwareVersion =
        [.send (toWire (0 : UInt32))] := by
  obtain ⟨flash, info, hFaults, hPages, hWords, hInside, hCheck, hVersion⟩ := exists_stuck_firmware
  have readable : flash.Readable := by simp [Flash.Readable, hFaults]
  obtain ⟨hStatus, hBroken⟩ := flashPage_zeroPage hFaults hPages hWords hInside
  obtain ⟨events, first, execution, hRun, hFirst, hCommand, hPayload, hAfter, hAsked, hItem⟩ :=
    executions_zeroPage (start flash {} 512) 3
  have hSame : (start flash {} 512).flash = flash := rfl
  have hLeft : execution.commands.flash = (flashPage flash zeroPage).2 := by
    rw [hAfter, flash_replacePage, hSame]
  refine ⟨flash, events, first, execution, readable, hInside, hRun, ?_, hAsked, hItem, ?_, ?_⟩
  · rw [Ledger.after_page hCommand hPayload, hFirst, hSame, hStatus, List.nil_append]
  · rw [truth_version_of_ok hCheck, hVersion]
  · rw [hLeft, truth_version_of_error hBroken]

/-! ## What is told -/

/-- What is told is what was true of the flash at the last check, or what is true of it now if a
page succeeded since. So it is true of the flash as it is if and only if a page succeeded or the
truth is what it was, which is the case unless a page failed while it was programmed. -/
theorem told_in_run {flash : Flash} (readable : flash.Readable)
    (hInside : SelfCheck.limit ≤ flash.bytes.size) (chip : Chip) (version : UInt32)
    (address : UInt8) {events : List Node.Event}
    {before rest : List (Execution Bootloader)} {execution : Execution Bootloader}
    (h : (Node.start (start flash chip version) address).executions events =
      before ++ execution :: rest)
    {item : Query} (hCommand : execution.request.header.command = .getData)
    (hItem : execution.request.payload = .query item)
    {ledger : Ledger} (hLedger : ledger = before.foldl Ledger.after ⟨flash, []⟩) :
    execution.actions = truth execution
        (if .success ∈ ledger.pages then execution.commands.flash else ledger.checked) item ∧
      (execution.actions = truth execution execution.commands.flash item ↔
        .success ∈ ledger.pages ∨
          truth execution ledger.checked item = truth execution execution.commands.flash item) ∧
      (.verifyFailed ∉ ledger.pages →
        execution.actions = truth execution execution.commands.flash item) := by
  have describes := Ledger.describes_in_run readable hInside h
  rw [← hLedger] at describes
  have hTold := describes.answered hCommand hItem
  refine ⟨hTold, ?_, ?_⟩
  · rw [hTold]
    by_cases hSuccess : FlashStatus.success ∈ ledger.pages
    · simp only [hSuccess, if_true, true_or]
    · simp only [hSuccess, if_false, false_or]
  · intro hVerify
    rw [actions_of_question hCommand hItem, describes.told_true (.inr hVerify), truth]

/-- Over a flash with a stuck word, a page fails, and the version that is told afterwards is the one
from before, which is not the truth any more. -/
theorem told_in_run_stale :
    ∃ (flash : Flash) (events : List Node.Event) (first execution : Execution Bootloader),
      flash.Readable ∧ SelfCheck.limit ≤ flash.bytes.size ∧
      (Node.start (start flash {} 512) 3).executions events = [first] ++ [execution] ∧
      execution.request.header.command = .getData ∧
      execution.request.payload = .query .firmwareVersion ∧
      execution.actions = truth execution flash .firmwareVersion ∧
      ¬execution.actions = truth execution execution.commands.flash .firmwareVersion := by
  obtain ⟨flash, events, first, execution, readable, hInside, hRun, hLedger, hAsked, hItem, hOld,
    hNow⟩ := stale_run
  have hSplit : (Node.start (start flash {} 512) 3).executions events = [first] ++ [execution] :=
    hRun
  obtain ⟨hTold, hTrue, _⟩ := told_in_run readable hInside {} 512 3 hSplit hAsked hItem hLedger.symm
  have hNone : FlashStatus.success ∉ [FlashStatus.verifyFailed] := by decide
  have hDiffer : [Action.send (toWire (7 : UInt32))] ≠ [.send (toWire (0 : UInt32))] := by decide
  rw [if_neg hNone] at hTold
  refine ⟨flash, events, first, execution, readable, hInside, hSplit, hAsked, hItem, hTold, ?_⟩
  rw [hTrue, hOld, hNow, or_iff_right hNone]
  exact hDiffer

/-- What a bootloader tells is not always true of its flash. -/
theorem not_always_true :
    ¬∀ (flash : Flash) (chip : Chip) (version : UInt32) (address : UInt8)
      (events : List Node.Event) (before rest : List (Execution Bootloader))
      (execution : Execution Bootloader) (item : Query),
      flash.Readable → SelfCheck.limit ≤ flash.bytes.size →
      (Node.start (start flash chip version) address).executions events =
        before ++ execution :: rest →
      execution.request.header.command = .getData → execution.request.payload = .query item →
      execution.actions = truth execution execution.commands.flash item := by
  intro hAlways
  obtain ⟨flash, events, first, execution, readable, hInside, hRun, hLedger, hAsked, hItem, hOld,
    hNow⟩ := stale_run
  have hSplit : (Node.start (start flash {} 512) 3).executions events = [first] ++ [execution] :=
    hRun
  have describes := Ledger.describes_in_run readable hInside hSplit
  have hTold := describes.answered hAsked hItem
  have hTrue := hAlways flash {} 512 3 events [first] [] execution .firmwareVersion readable hInside
    hRun hAsked hItem
  have hNone : FlashStatus.success ∉ [FlashStatus.verifyFailed] := by decide
  have hDiffer : [Action.send (toWire (7 : UInt32))] ≠ [.send (toWire (0 : UInt32))] := by decide
  rw [List.foldl_cons, List.foldl_nil, hLedger, if_neg hNone, hOld] at hTold
  exact hDiffer (hTold.symm.trans (hTrue.trans hNow))

end Multidrop.Bootloader
