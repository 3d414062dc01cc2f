import Multidrop.Proofs.Bootloader.Page
import Multidrop.Proofs.Node.Event
import Multidrop.Proofs.Store.Region

/-!
What one request does to a bootloader. Pages go to the firmware region, everything else that is
written goes to the configuration store, and only a reset to the firmware reaches the chip.
-/

namespace Multidrop.Bootloader

instance : SteadyCommandSet Bootloader where
  accept_commands _ _ := rfl

/-- A page is answered with how it went and leaves the flash as flashing left it. -/
theorem replacePage_eq (bootloader : Bootloader) (page : Page) :
    bootloader.replacePage page =
      ([.send (toWire (flashPage bootloader.flash page).1)],
        { bootloader with
          flash := (flashPage bootloader.flash page).2
          stale := bootloader.stale || (flashPage bootloader.flash page).1 == .success }) := by
  obtain ⟨flash, chip, version, firmware, identity, stale⟩ := bootloader
  unfold replacePage
  dsimp only

theorem flash_replacePage (bootloader : Bootloader) (page : Page) :
    (bootloader.replacePage page).2.flash = (flashPage bootloader.flash page).2 := by
  rw [replacePage_eq]

/-- What both command sets share changes nothing of a bootloader but its flash. -/
theorem share_eq (bootloader : Bootloader) (request : Request) (session : Session) :
    bootloader.share request session =
      ((Shared.execute request session bootloader.identity bootloader.flash).1,
        { bootloader with
          flash := (Shared.execute request session bootloader.identity bootloader.flash).2 }) := by
  obtain ⟨flash, chip, version, firmware, identity, stale⟩ := bootloader
  unfold share
  dsimp only

/-- What is shared with firmwares touches the configuration store alone. -/
theorem share_confined (bootloader : Bootloader) (request : Request) (session : Session) :
    ∃ flash, Flash.Confined Store.standard.start Store.standard.stop bootloader.flash flash ∧
      (bootloader.share request session).2 = { bootloader with flash } :=
  ⟨_, Shared.execute_confined request session bootloader.identity bootloader.flash,
    congrArg Prod.snd (bootloader.share_eq request session)⟩

/-- Questions change nothing. -/
theorem share_getData (bootloader : Bootloader) {request : Request}
    (h : request.header.command = .getData) (session : Session) :
    (bootloader.share request session).2 = bootloader := by
  rw [share_eq]
  unfold Shared.execute
  rw [h]
  cases request.payload <;> rfl

theorem execute_page (bootloader : Bootloader) {header : Header}
    (h : header.command = .flashFirmware) (page : Page) (session : Session) :
    execute bootloader ⟨header, .page page⟩ session = bootloader.replacePage page := by
  simp only [execute, h]

/-- A question is answered from the identity, which is looked up again first if pages were flashed
since. -/
theorem execute_query (bootloader : Bootloader) {header : Header} (h : header.command = .getData)
    (item : Query) (session : Session) :
    execute bootloader ⟨header, .query item⟩ session =
      (bootloader.refresh.identity.answer session item, bootloader.refresh) := by
  simp only [execute, h, share_eq, Shared.execute]

/-- A request is a page, a reset to the firmware, a question, or something that touches the
configuration store at most. -/
theorem execute_cases (bootloader : Bootloader) (request : Request) (session : Session) :
    (∃ page, request.header.command = .flashFirmware ∧ request.payload = .page page ∧
      execute bootloader request session = bootloader.replacePage page) ∨
    (request.header.command = .resetToFirmware ∧
      (execute bootloader request session).2 =
        { bootloader with chip := (bootloader.chip.setBootFlag .enforceNormalBoot).reset }) ∨
    (request.header.command = .getData ∧
      execute bootloader request session = bootloader.refresh.share request session) ∨
    ((request.header.command ≠ .getData ∧
        ∀ page, request.header.command = .flashFirmware → request.payload ≠ .page page) ∧
      ∃ flash, Flash.Confined Store.standard.start Store.standard.stop bootloader.flash flash ∧
        (execute bootloader request session).2 = { bootloader with flash }) := by
  have hSame : ∃ flash,
      Flash.Confined Store.standard.start Store.standard.stop bootloader.flash flash ∧
        bootloader = { bootloader with flash } := ⟨bootloader.flash, .refl .., rfl⟩
  obtain ⟨header, payload⟩ := request
  cases hCommand : header.command with
  | resetToFirmware => exact .inr (.inl ⟨rfl, by simp only [execute, hCommand]⟩)
  | getData => exact .inr (.inr (.inl ⟨rfl, by simp only [execute, hCommand]⟩))
  | flashFirmware =>
      cases payload with
      | page page => exact .inl ⟨page, rfl, rfl, by simp only [execute, hCommand]⟩
      | _ =>
          refine .inr (.inr (.inr ⟨⟨by simp, by simp⟩, ?_⟩))
          simpa only [execute, hCommand] using hSame
  | resetToBootloader =>
      refine .inr (.inr (.inr ⟨⟨by simp, by simp⟩, ?_⟩))
      simpa only [execute, hCommand] using hSame
  | readMemory =>
      refine .inr (.inr (.inr ⟨⟨by simp, by simp⟩, ?_⟩))
      cases payload <;> simpa only [execute, hCommand] using hSame
  | _ =>
      refine .inr (.inr (.inr ⟨⟨by simp, by simp⟩, ?_⟩))
      simpa only [execute, hCommand] using share_confined bootloader _ session

/-- To look the identity up again changes neither flash nor chip nor version. -/
theorem refresh_kept (bootloader : Bootloader) :
    bootloader.refresh.flash = bootloader.flash ∧ bootloader.refresh.chip = bootloader.chip ∧
      bootloader.refresh.version = bootloader.version := by
  unfold refresh
  split
  · exact ⟨rfl, rfl, rfl⟩
  · exact ⟨rfl, rfl, rfl⟩

/-- A bootloader that checked the firmware has nothing to check. -/
theorem refresh_refresh (bootloader : Bootloader) :
    bootloader.refresh.refresh = bootloader.refresh := by
  cases hStale : bootloader.stale with
  | true => simp [refresh, hStale, start]
  | false => simp [refresh, hStale]

/-- No request starts the firmware or changes the version that will be handed to it. -/
theorem execute_boots (bootloader : Bootloader) (request : Request) (session : Session) :
    (execute bootloader request session).2.chip.boots = bootloader.chip.boots ∧
      (execute bootloader request session).2.version = bootloader.version := by
  obtain ⟨_, hChip, hVersion⟩ := bootloader.refresh_kept
  rcases bootloader.execute_cases request session with
    ⟨page, _, _, h⟩ | ⟨_, h⟩ | ⟨hCommand, h⟩ | ⟨_, flash, _, h⟩
  · rw [h]
    exact ⟨rfl, rfl⟩
  · rw [h]
    exact ⟨rfl, rfl⟩
  · rw [h, share_getData _ hCommand, hChip, hVersion]
    exact ⟨rfl, rfl⟩
  · rw [h]
    exact ⟨rfl, rfl⟩

/-- Only a reset to the firmware reaches the chip. -/
theorem execute_chip (bootloader : Bootloader) {request : Request} (session : Session)
    (hReset : request.header.command ≠ .resetToFirmware) :
    (execute bootloader request session).2.chip = bootloader.chip := by
  rcases bootloader.execute_cases request session with
    ⟨page, _, _, h⟩ | ⟨h, _⟩ | ⟨hCommand, h⟩ | ⟨_, flash, _, h⟩
  · rw [h, replacePage_eq]
  · exact absurd h hReset
  · rw [h, share_getData _ hCommand, bootloader.refresh_kept.2.1]
  · rw [h]

/-- A request that is neither a page nor a reset to the firmware leaves firmware and chip alone. -/
theorem execute_confined (bootloader : Bootloader) {request : Request} (session : Session)
    (hPage : request.header.command ≠ .flashFirmware)
    (hReset : request.header.command ≠ .resetToFirmware) :
    Flash.Confined Store.standard.start Store.standard.stop bootloader.flash
        (execute bootloader request session).2.flash ∧
      (execute bootloader request session).2.chip = bootloader.chip := by
  refine ⟨?_, bootloader.execute_chip session hReset⟩
  rcases bootloader.execute_cases request session with
    ⟨page, h, _⟩ | ⟨h, _⟩ | ⟨hCommand, h⟩ | ⟨_, flash, hConfined, h⟩
  · exact absurd h hPage
  · exact absurd h hReset
  · rw [h, share_getData _ hCommand, bootloader.refresh_kept.1]
    exact .refl ..
  · rw [h]
    exact hConfined

end Multidrop.Bootloader
