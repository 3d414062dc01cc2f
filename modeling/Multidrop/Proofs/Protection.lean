import Multidrop.Proofs.Bootloader.Execution
import Multidrop.Proofs.Firmware.Execution
import Multidrop.Proofs.Node.Reachable

/-!
What traffic can do to the flash of a node. The bootloader is out of reach for everybody and the
firmware for itself. A byte of the firmware changes only while the page that holds it is flashed, a
byte of the configuration only while an address is stored or the configuration is erased.
-/

namespace Multidrop

/-- Two of the commands all nodes have in common change the flash. -/
theorem Shared.flash_execute {request : Request} (hSet : request.header.command ≠ .setAddress)
    (hErase : request.header.command ≠ .eraseConfig) (session : Session) (identity : Identity)
    (flash : Flash) : (Shared.execute request session identity flash).2 = flash := by
  unfold Shared.execute
  split
  · rfl
  · rfl
  · next hCommand _ => exact absurd hCommand hSet
  · next hCommand => exact absurd hCommand hErase
  · rfl

namespace Node

variable {C : Type} {node : Node C} {start stop : Nat}

/-- What is executed is what was due at a poll. -/
theorem eq_poll_of_executed {event : Event} {execution : Execution C}
    (h : node.executed event = [execution]) : event = .poll ∧ node.due? = some execution := by
  cases event with
  | poll =>
      refine ⟨rfl, ?_⟩
      rw [executed, Option.toList_eq_singleton_iff] at h
      exact h
  | byte byte => cases h
  | silence => cases h
  | lock => cases h
  | unlock => cases h

variable [CommandSet C] [SteadyCommandSet C]

/-- What is touched by an event is touched by the request it executes. -/
theorem executed_of_touches (flash : C → Flash) {event : Event} {i : Nat}
    (h : Flash.Touches (flash node.commands) (flash (node.step event).commands) i) :
    ∃ execution, node.executed event = [execution] ∧
      Flash.Touches (flash execution.commands) (flash execution.after) i := by
  rcases node.step_cases event with ⟨_, kept⟩ | ⟨execution, hOne, hCommands, hLink, _⟩
  · have hSame : (node.step event).commands = node.commands := kept.commands
    rw [hSame] at h
    exact absurd h (Flash.not_touches_self _ i)
  · have hAfter : (node.step event).commands = execution.after := by
      rw [commands, hLink]
      rfl
    rw [hAfter, ← hCommands] at h
    exact ⟨execution, hOne, h⟩

/-- What every execution keeps to, every run keeps to. -/
theorem run_confined (flash : C → Flash) (node : Node C)
    (hExecute : ∀ execution : Execution C,
      Flash.Confined start stop (flash execution.commands) (flash execution.after))
    (events : List Event) :
    Flash.Confined start stop (flash node.commands) (flash (node.run events).commands) := by
  induction events generalizing node with
  | nil => exact .refl ..
  | cons event rest ih =>
      refine Flash.Confined.trans ?_ (ih (node.step event))
      rcases node.step_cases event with ⟨_, kept⟩ | ⟨execution, _, hCommands, hLink, _⟩
      · have hSame : (node.step event).commands = node.commands := kept.commands
        rw [hSame]
        exact .refl ..
      · rw [← hCommands, commands, hLink]
        exact hExecute execution

end Node

namespace Bootloader

/-- No other command of the bootloader changes the flash. -/
theorem flash_execute (bootloader : Bootloader) {request : Request}
    (hPage : request.header.command ≠ .flashFirmware)
    (hSet : request.header.command ≠ .setAddress)
    (hErase : request.header.command ≠ .eraseConfig) (session : Session) :
    (execute bootloader request session).2.flash = bootloader.flash := by
  unfold execute
  split
  · rfl
  · rfl
  · rfl
  · rfl
  · next hCommand _ => exact absurd hCommand hPage
  · rfl
  · rw [share_eq, Shared.flash_execute hSet hErase]
    exact bootloader.refresh_kept.1
  · rw [share_eq, Shared.flash_execute hSet hErase]

/-- A byte is touched by a page if the page holds it and matches its checksum. -/
theorem page_of_touches {flash : Flash} {page : Page} {i : Nat}
    (h : Flash.Touches flash (flashPage flash page).2 i) :
    SelfCheck.base ≤ i ∧ i < SelfCheck.limit ∧ page.index.toNat = i / Layout.pageSize ∧
      checksum page.data.toList = page.checksum := by
  by_cases hAccepted : Layout.isFirmwarePage page.index = true ∧
      checksum page.data.toList = page.checksum
  · obtain ⟨hLow, hHigh⟩ := (flashPage_confined_page flash page).of_touches h
    obtain ⟨hBase, hLimit⟩ := (Layout.isFirmwarePage_iff page.index).mp hAccepted.1
    have hIndex : page.index.toNat = i / Layout.pageSize := by
      simp only [Layout.pageOffset, Layout.pageSize] at hLow hHigh ⊢
      omega
    exact ⟨by omega, by omega, hIndex, hAccepted.2⟩
  · rw [(flashPage_of_rejected flash hAccepted).2] at h
    exact absurd h (Flash.not_touches_self flash i)

/-- Where a request touches the flash of a bootloader, it is a page that holds the byte and matches
its checksum, or it is about the configuration and so is the byte. -/
theorem request_of_touches {bootloader : Bootloader} {request : Request} {session : Session}
    {i : Nat} (h : Flash.Touches bootloader.flash (execute bootloader request session).2.flash i) :
    (SelfCheck.base ≤ i ∧ i < SelfCheck.limit ∧ request.header.command = .flashFirmware ∧
      ∃ page, request.payload = .page page ∧ page.index.toNat = i / Layout.pageSize ∧
        checksum page.data.toList = page.checksum) ∨
    (Store.standard.start ≤ i ∧ i < Store.standard.stop ∧
      (request.header.command = .setAddress ∨ request.header.command = .eraseConfig)) := by
  by_cases hPage : request.header.command = .flashFirmware
  · left
    obtain ⟨header, payload⟩ := request
    have hCommand : header.command = .flashFirmware := hPage
    cases payload with
    | page page =>
        rw [execute_page bootloader hCommand, flash_replacePage] at h
        obtain ⟨hLow, hHigh, hIndex, hSum⟩ := page_of_touches h
        exact ⟨hLow, hHigh, hCommand, page, rfl, hIndex, hSum⟩
    | _ =>
        simp only [execute, hCommand] at h
        exact absurd h (Flash.not_touches_self _ i)
  · right
    by_cases hConfig : request.header.command = .setAddress ∨ request.header.command = .eraseConfig
    · have hReset : request.header.command ≠ .resetToFirmware := by
        rcases hConfig with hSet | hErase
        · simp [hSet]
        · simp [hErase]
      obtain ⟨hLow, hHigh⟩ :=
        (bootloader.execute_confined session hPage hReset).1.of_touches h
      exact ⟨hLow, hHigh, hConfig⟩
    · obtain ⟨hSet, hErase⟩ := not_or.mp hConfig
      rw [flash_execute bootloader hPage hSet hErase] at h
      exact absurd h (Flash.not_touches_self _ i)

/-- Whatever a request is, it does not reach the bootloader. -/
theorem execute_beyond (bootloader : Bootloader) (request : Request) (session : Session) :
    Flash.Confined Layout.bootloaderSize Layout.flashSize bootloader.flash
      (execute bootloader request session).2.flash := by
  rcases bootloader.execute_cases request session with
    ⟨page, _, _, h⟩ | ⟨_, h⟩ | ⟨hCommand, h⟩ | ⟨_, flash, hConfined, h⟩
  · rw [h, flash_replacePage]
    exact (flashPage_confined bootloader.flash page).mono (by decide) (by decide)
  · rw [h]
    exact .refl ..
  · rw [h, share_getData _ hCommand, bootloader.refresh_kept.1]
    exact .refl ..
  · rw [h]
    exact hConfined.mono (by decide) (by decide)

end Bootloader

/-- No traffic overwrites what is protected. Of a bootloader nothing below the firmware region is
ever erased or programmed; a byte of the firmware region is touched only by a page for the node that
holds the byte and matches its checksum, and a byte beyond only by a request for the node to store
an address or to erase the configuration. Of a firmware nothing below the configuration store is
ever erased or programmed. -/
theorem flash_protected (address : UInt8) (events : List Node.Event) :
    (∀ bootloader : Bootloader,
      let node := (Node.start bootloader address).run events
      Flash.Confined 0x1000 0x10000 bootloader.flash node.commands.flash ∧
      ∀ event i, Flash.Touches node.commands.flash (node.step event).commands.flash i →
        0x1000 ≤ i ∧ i < 0x10000 ∧ ∃ execution, node.executed event = [execution] ∧
          execution.request.header.targets node.address = true ∧
          (i < 0xC000 → execution.request.header.command = .flashFirmware ∧
            ∃ page, execution.request.payload = .page page ∧ page.index.toNat = i / 1024 ∧
              checksum page.data.toList = page.checksum) ∧
          (0xC000 ≤ i → execution.request.header.command = .setAddress ∨
            execution.request.header.command = .eraseConfig)) ∧
    ∀ firmware : Firmware,
      Flash.Confined 0xC000 0x10000 firmware.flash
        ((Node.start firmware address).run events).commands.flash := by
  have hBase : SelfCheck.base = 0x1000 := by decide
  have hLimit : SelfCheck.limit = 0xC000 := by decide
  have hStart : Store.standard.start = 0xC000 := by decide
  have hStop : Store.standard.stop = 0x10000 := by decide
  refine ⟨fun bootloader => ⟨?_, ?_⟩, fun firmware => ?_⟩
  · exact Node.run_confined Bootloader.flash (Node.start bootloader address)
      (fun execution => Bootloader.execute_beyond execution.commands execution.request _) events
  · intro event i hTouches
    obtain ⟨execution, hOne, hExecuted⟩ := Node.executed_of_touches Bootloader.flash hTouches
    have hReachable := Node.reachable_run (Node.reachable_start bootloader address) events
    have hTargets := (Node.sound_of_due hReachable (Node.eq_poll_of_executed hOne).2).2.2
    rcases Bootloader.request_of_touches hExecuted with
      ⟨hLow, hHigh, hPage⟩ | ⟨hLow, hHigh, hConfig⟩
    · rw [hBase] at hLow
      rw [hLimit] at hHigh
      exact ⟨hLow, by omega, execution, hOne, hTargets, fun _ => hPage, fun hBeyond => by omega⟩
    · rw [hStart] at hLow
      rw [hStop] at hHigh
      exact ⟨by omega, hHigh, execution, hOne, hTargets, fun hBelow => by omega, fun _ => hConfig⟩
  · exact Node.run_confined Firmware.flash (Node.start firmware address)
      (fun execution => Firmware.execute_confined execution.commands execution.request _) events

/-- Node 5 erases its configuration when it is told to, and for no other reason. -/
theorem flash_protected_erase :
    let flash : Flash := ⟨Array.replicate 65536 0, [], [], [], #[]⟩
    let events : List Node.Event := [4, 0, 5, 123].map .byte
    let node := (Node.start (Bootloader.start flash {} 0) 5).run events
    Flash.Touches node.commands.flash (node.step .poll).commands.flash 0xC000 ∧
      ∃ execution, node.executed .poll = [execution] ∧
        execution.request.header.targets node.address = true ∧
        (execution.request.header.command = .setAddress ∨
          execution.request.header.command = .eraseConfig) := by
  intro flash events node
  have hPolled : ∀ bootloader : Bootloader,
      (((Node.start bootloader 5).run events).step .poll).commands.flash =
        (Store.standard.erase bootloader.flash).2 := fun _ => rfl
  have hBefore : ∀ bootloader : Bootloader,
      ((Node.start bootloader 5).run events).commands.flash = bootloader.flash := fun _ => rfl
  have hErased : (Store.standard.erase flash).2 =
      flash.carryOut (.erase Store.standard.start Store.standard.stop) := by
    rw [Store.erase, Flash.erase_of_no_faults rfl rfl rfl (by decide) (by simp [flash]; decide)]
  have hTouches : Flash.Touches node.commands.flash (node.step .poll).commands.flash 0xC000 := by
    rw [hPolled, hBefore]
    change Flash.Touches flash (Store.standard.erase flash).2 0xC000
    rw [hErased]
    exact flash.touches_carryOut (by decide) (by decide)
  obtain ⟨_, _, execution, hOne, hTargets, _, hConfig⟩ :=
    ((flash_protected 5 events).1 _).2 .poll 0xC000 hTouches
  exact ⟨hTouches, execution, hOne, hTargets, hConfig (Nat.le_refl _)⟩

end Multidrop
