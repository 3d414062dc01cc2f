import Multidrop.Node.Bootloader.Serve
import Multidrop.Proofs.Bootloader.Execution
import Multidrop.Proofs.Image

/-!
When the firmware is started. A deadline stands only while nothing touched the firmware since it was
checked, since every request that could do so takes the deadline away before it is looked at.
-/

namespace Multidrop

namespace Chip

/-- A chip that was told which bootloader starts the firmware and then, once, to go on with it. -/
def started (chip : Chip) (version : UInt32) : Chip :=
  { chip with
    bootloaderVersion := version
    boots := chip.boots.push (UInt32.ofNat Layout.firmwareStart)
    calls := (chip.calls.push (.storeVersion version)).push
      (.boot (UInt32.ofNat Layout.firmwareStart)) }

/-- A chip that was told to start the firmware whatever the strap asks for and then, once, to
reset. -/
def restarted (chip : Chip) : Chip :=
  { chip with
    flag := Coded.code BootFlag.enforceNormalBoot
    resets := chip.resets + 1
    calls := (chip.calls.push (.setBootFlag .enforceNormalBoot)).push .reset }

/-- The two calls that a reset to the firmware makes. -/
theorem restarted_eq (chip : Chip) :
    (chip.setBootFlag .enforceNormalBoot).reset = chip.restarted :=
  rfl

end Chip

/-- To hear what comes is nothing to commands, address and line, as far as they matter to an
execution. -/
theorem Node.kept_hear {C : Type} [CommandSet C] [SteadyCommandSet C] (node : Node C)
    (traffic : List Traffic) : Link.Kept node.link.value (node.hear traffic).link.value := by
  induction traffic generalizing node with
  | nil => exact .refl _
  | cons heard rest ih =>
      cases heard with
      | byte byte => exact (kept_receive node byte).trans (ih _)
      | silence => exact (kept_timeout node).trans (ih _)

/-- An execution that began with the line released ends with it released. -/
theorem Execution.taken_link {C : Type} [CommandSet C] (execution : Execution C)
    (hFree : execution.session.transmitting = false)
    (hTaken : execution.session.trace.taken = false) : execution.link.trace.taken = false := by
  have knows : execution.session.Knows := hTaken.trans hFree.symm
  exact (knows.run execution.actions).taken_close

namespace Loop

/-- A bootloader that came up on a chip, started nothing since and has released the line. -/
structure Serves (flash : Flash) (chip : Chip) (version : UInt32) (node : Node Bootloader) :
    Prop where
  version : node.commands.version = version
  boots : node.commands.chip.boots = chip.boots
  free : node.link.value.trace.taken = false

/-- The firmware passed its check, and neither it nor the chip was touched since. -/
structure Untouched (flash : Flash) (chip : Chip) (node : Node Bootloader) : Prop where
  valid : ∃ info, checkFirmware flash = .ok info
  flash : Flash.Confined Store.standard.start Store.standard.stop flash node.commands.flash
  chip : node.commands.chip = chip

variable {flash : Flash} {chip : Chip} {version : UInt32} {node next : Node Bootloader}

/-- While its framer goes on, a bootloader starts nothing and leaves the line alone. -/
theorem Serves.kept (serves : Serves flash chip version node)
    (kept : Link.Kept node.link.value next.link.value) : Serves flash chip version next := by
  obtain ⟨hVersion, hBoots, hFree⟩ := serves
  rw [Node.commands, ← kept.commands] at hVersion hBoots
  exact ⟨hVersion, hBoots, kept.taken.trans hFree⟩

/-- What was not touched is not touched by a framer that goes on. -/
theorem Untouched.kept (untouched : Untouched flash chip node)
    (kept : Link.Kept node.link.value next.link.value) : Untouched flash chip next := by
  obtain ⟨hValid, hFlash, hChip⟩ := untouched
  rw [Node.commands, ← kept.commands] at hFlash hChip
  exact ⟨hValid, hFlash, hChip⟩

/-- No poll starts the firmware, changes the version or keeps the line. -/
theorem Serves.poll (serves : Serves flash chip version node) :
    Serves flash chip version node.poll.2 := by
  cases hDue : node.due? with
  | none => exact serves.kept (Node.poll_of_not_due hDue).2
  | some execution =>
      obtain ⟨_, hLink, hCommands, hTaken, hFree⟩ := Node.poll_of_due hDue
      obtain ⟨hVersion, hBoots, hListens⟩ := serves
      rw [← hCommands] at hVersion hBoots
      obtain ⟨hNoBoots, hSame⟩ := execution.commands.execute_boots execution.request
        execution.session
      refine ⟨?_, ?_, ?_⟩
      · rw [Node.commands, hLink]
        exact hSame.trans hVersion
      · rw [Node.commands, hLink]
        exact hNoBoots.trans hBoots
      · rw [hLink]
        exact execution.taken_link hFree (hTaken.trans hListens)

/-- A poll that is not followed by the end of the deadline or of the loop touches neither the
firmware nor the chip. -/
theorem Untouched.poll (untouched : Untouched flash chip node)
    (hPage : node.poll.1 ≠ some .flashFirmware) (hReset : node.poll.1 ≠ some .resetToFirmware) :
    Untouched flash chip node.poll.2 := by
  cases hDue : node.due? with
  | none => exact untouched.kept (Node.poll_of_not_due hDue).2
  | some execution =>
      obtain ⟨hCommand, hLink, hCommands, _, _⟩ := Node.poll_of_due hDue
      obtain ⟨hValid, hFlash, hChip⟩ := untouched
      rw [← hCommands] at hFlash hChip
      rw [hCommand] at hPage hReset
      have hNoPage : execution.request.header.command ≠ .flashFirmware :=
        fun h => hPage (congrArg some h)
      have hNoReset : execution.request.header.command ≠ .resetToFirmware :=
        fun h => hReset (congrArg some h)
      obtain ⟨hStore, hSame⟩ := execution.commands.execute_confined execution.session hNoPage
        hNoReset
      refine ⟨hValid, ?_, ?_⟩
      · rw [Node.commands, hLink]
        exact hFlash.trans hStore
      · rw [Node.commands, hLink]
        exact hSame.trans hChip

/-- What is true of a loop that still runs. -/
structure Waits (flash : Flash) (chip : Chip) (version : UInt32) (loop : Loop) : Prop where
  serves : Serves flash chip version loop.node
  untouched : loop.deadline ≠ none → Untouched flash chip loop.node

/-- All is ready for the firmware: the interrupts are kept from the node, nothing is left of a
packet, the line is free, and the chip was told the version and nothing else since the check. -/
structure Ready (flash : Flash) (chip : Chip) (version : UInt32) (node : Node Bootloader) :
    Prop where
  valid : ∃ info, checkFirmware flash = .ok info
  flash : Flash.Confined Store.standard.start Store.standard.stop flash node.commands.flash
  chip : node.commands.chip =
    { chip with
      bootloaderVersion := version
      calls := chip.calls.push (.storeVersion version) }
  packet : node.link.value.packet = .idle
  free : node.link.value.trace.taken = false
  held : node.link.held = true

/-- The chip is told to go on with the firmware in the node `called`, which makes it `started`. That
is done nowhere before, and afterwards the node is only given back. -/
structure Starts (flash : Flash) (chip : Chip) (version : UInt32) (before : List (Node Bootloader))
    (called started last : Node Bootloader) : Prop where
  ready : Ready flash chip version called
  early : ∀ node ∈ before ++ [called], node.commands.chip.boots = chip.boots
  chip : started.commands.chip = chip.started version
  flash : started.commands.flash = called.commands.flash
  commands : last.commands = started.commands
  packet : last.link.value.packet = called.link.value.packet
  trace : last.link.value.trace = called.link.value.trace
  unlocked : last.link.held = false

/-- A bootloader that is told the version and gives the line back has all ready for the firmware. -/
theorem ready_released {locked : Node Bootloader} (hHeld : locked.link.held = true)
    (serves : Serves flash chip version locked) (untouched : Untouched flash chip locked) :
    Ready flash chip version
      ((locked.mapLink Link.release).mapLink (Link.mapCommands Bootloader.storeVersion)) := by
  obtain ⟨hValid, hFlash, hChip⟩ := untouched
  obtain ⟨⟨⟨bootloader, address, packet, trace⟩, held⟩, ready, expired⟩ := locked
  obtain ⟨hVersion, _, hFree⟩ := serves
  dsimp only [Node.commands] at hFlash hChip hVersion hFree
  refine ⟨hValid, hFlash, ?_, rfl, ?_, hHeld⟩
  · change bootloader.chip.storeVersion bootloader.version = _
    rw [hChip, hVersion]
    rfl
  · change Line.Trace.taken (trace.push .stopTimer) = false
    rw [Line.Trace.taken_push, hFree]
    rfl

/-- The calls at the end of a loop start the firmware once, when all is ready for it. -/
theorem starts_farewell (serves : Serves flash chip version node)
    (untouched : Untouched flash chip node) :
    ∃ before called started, passed node farewell = before ++ [called, started, boot node] ∧
      Starts flash chip version before called started (boot node) := by
  have kept := Node.kept_lock node
  have locked := serves.kept kept
  let released := node.lock.mapLink Link.release
  let called := released.mapLink (Link.mapCommands Bootloader.storeVersion)
  let started := called.mapLink (Link.mapCommands Bootloader.boot)
  have ready : Ready flash chip version called :=
    ready_released node.held_lock locked (untouched.kept kept)
  have hPassed : passed node farewell =
      [node, node.lock, released] ++ [called, started, started.unlock] := rfl
  have hBoot : boot node = started.unlock := rfl
  rw [hPassed, hBoot]
  refine ⟨[node, node.lock, released], called, started, rfl, ready, ?_, ?_, rfl, rfl, rfl, rfl, rfl⟩
  · have hReleased : released.commands.chip.boots = chip.boots := locked.boots
    have hCalled : called.commands.chip.boots = chip.boots := by rw [ready.chip]
    simp only [List.cons_append, List.nil_append, List.forall_mem_cons]
    exact ⟨serves.boots, locked.boots, hReleased, hCalled, List.forall_mem_nil _⟩
  · have hStarted : started.commands.chip =
        called.commands.chip.boot (UInt32.ofNat Layout.firmwareStart) := rfl
    rw [hStarted, ready.chip]
    rfl

/-- A loop that ended has started the firmware it found at first, or none at all. -/
def Ended (flash : Flash) (chip : Chip) (version : UInt32) (service : Service) : Prop :=
  service.ending ≠ .booted ∧ service.trail = [] ∧ service.node.commands.chip.boots = chip.boots ∨
    service.ending = .booted ∧ ∃ before called started,
      service.trail = before ++ [called, started, service.node] ∧
        Starts flash chip version before called started service.node

theorem waits_idle {loop : Loop} {deadline : Option Nat} {world : Turn}
    (serves : Serves flash chip version node)
    (untouched : deadline ≠ none → Untouched flash chip node) :
    Waits flash chip version (loop.idle deadline node world) := by
  have kept := node.kept_hear world.idling
  exact ⟨serves.kept kept, fun hDeadline => (untouched hDeadline).kept kept⟩

/-- The deadline after a poll that did not end the loop. It stands only if it stood before and the
poll executed no page. -/
theorem untouched_of_deadline {loop : Loop} (waits : Waits flash chip version loop) (deadline : Nat)
    (hReset : loop.node.poll.1 ≠ some .resetToFirmware)
    (h : (if cancels loop.node.poll.1 then none else loop.deadline) = some deadline) :
    Untouched flash chip loop.node.poll.2 := by
  split at h
  case isTrue => cases h
  case isFalse hCancels =>
      refine (waits.untouched (by simp [h])).poll (fun hPage => hCancels ?_) hReset
      rw [hPage]
      rfl

/-- One turn keeps what is true of a loop, or ends it as it should. -/
theorem Waits.turn {loop : Loop} (waits : Waits flash chip version loop) (world : Turn) :
    (∃ service, loop.turn world = .inl service ∧ Ended flash chip version service) ∨
      ∃ next, loop.turn world = .inr next ∧ Waits flash chip version next := by
  have hServes := waits.serves.poll
  have hUntouched := fun deadline => untouched_of_deadline waits deadline
  unfold Loop.turn
  generalize loop.node.poll = polled at hServes hUntouched ⊢
  obtain ⟨command, node⟩ := polled
  dsimp only at hServes hUntouched
  split
  · next hPolled =>
      obtain ⟨_, rfl⟩ := Prod.mk.inj hPolled
      exact .inl ⟨_, rfl, .inl ⟨by simp, rfl, hServes.boots⟩⟩
  · next command' node' hReset hPolled =>
      obtain ⟨rfl, rfl⟩ := Prod.mk.inj hPolled
      have hNoReset : command ≠ some .resetToFirmware := by
        rintro rfl
        exact hReset rfl
      split
      · exact .inr ⟨_, rfl, waits_idle hServes fun h => absurd rfl h⟩
      · next deadline hDeadline =>
          have kept := node.kept_hear world.sampling
          have hSampled := hServes.kept kept
          have hSame := (hUntouched deadline hNoReset hDeadline).kept kept
          dsimp only
          split
          · exact .inl ⟨_, rfl, .inr ⟨rfl, starts_farewell hSampled hSame⟩⟩
          · exact .inr ⟨_, rfl, waits_idle hSampled fun _ => hSame⟩

/-- A loop that waits ends as it should, however many turns there are. -/
theorem Waits.serve {loop : Loop} (waits : Waits flash chip version loop) (turns : List Turn) :
    Ended flash chip version (loop.serve turns) := by
  induction turns generalizing loop with
  | nil => exact .inl ⟨by simp [Loop.serve, leave], rfl, waits.serves.boots⟩
  | cons world rest ih =>
      rw [Loop.serve]
      rcases waits.turn world with ⟨service, hTurn, hEnded⟩ | ⟨next, hTurn, hWaits⟩
      · rw [hTurn]
        exact hEnded
      · rw [hTurn]
        exact ih hWaits

/-- A loop that begins as a bootloader decided has a deadline only if the firmware was checked. -/
theorem ok_of_deadline {bootloader : Bootloader} {now : Nat}
    (h : (Loop.start bootloader.decide now node).deadline ≠ none) :
    ∃ info, bootloader.firmware = .ok info := by
  cases hFirmware : bootloader.firmware with
  | ok info => exact ⟨info, rfl⟩
  | error error =>
      refine absurd ?_ h
      simp [Loop.start, Bootloader.decide, Bootloader.isValid, hFirmware, Except.isOk,
        Except.toBool, Decision.decide, Decision.timeout?]

/-- The loop begins with nothing touched if nothing was executed before it. -/
theorem waits_start {address : UInt8} {before : List Node.Event}
    (quiet : (Node.start (Bootloader.start flash chip version) address).executions before = [])
    (now : Nat) :
    Waits flash chip version (Loop.start (Bootloader.start flash chip version).decide now
      ((Node.start (Bootloader.start flash chip version) address).run before)) := by
  have kept := Node.kept_run quiet
  have serves : Serves flash chip version
      (Node.start (Bootloader.start flash chip version) address) := ⟨rfl, rfl, rfl⟩
  refine ⟨serves.kept kept, fun hDeadline => ?_⟩
  have untouched : Untouched flash chip
      (Node.start (Bootloader.start flash chip version) address) :=
    ⟨ok_of_deadline hDeadline, .refl .., rfl⟩
  exact untouched.kept kept

end Loop

/-- The main loop of a bootloader starts no firmware, or it starts, once, the firmware that the
bootloader checked when it came up. Where the chip is told to go on with it, all of it is still
there and still passes the check, the version was stored since, nothing is left of a packet, and the
line is free. -/
theorem boot_of_checked (flash : Flash) (chip : Chip) (version : UInt32) (address : UInt8)
    {before : List Node.Event}
    (quiet : (Node.start (Bootloader.start flash chip version) address).executions before = [])
    (now : Nat) (turns : List Turn) {service : Service}
    (hService : service = Service.run (Bootloader.start flash chip version).decide now
      ((Node.start (Bootloader.start flash chip version) address).run before) turns) :
    service.ending ≠ .booted ∧ service.trail = [] ∧
        service.node.commands.chip.boots = chip.boots ∨
      service.ending = .booted ∧ ∃ early called started,
        service.trail = early ++ [called, started, service.node] ∧
        (∀ node ∈ early ++ [called], node.commands.chip.boots = chip.boots) ∧
        called.commands.chip =
          { chip with
            bootloaderVersion := version
            calls := chip.calls.push (.storeVersion version) } ∧
        called.link.value.packet = .idle ∧
        called.link.value.trace.taken = false ∧
        called.link.held = true ∧
        (∀ i, SelfCheck.base ≤ i → i < SelfCheck.limit →
          called.commands.flash.bytes[i]? = flash.bytes[i]?) ∧
        (∃ info, checkFirmware flash = .ok info ∧
          checkFirmware called.commands.flash = .ok info ∧
          ∀ other : Flash, other.Readable → other.bytes = called.commands.flash.bytes →
            checkFirmware other = .ok info) ∧
        started.commands.chip =
          { chip with
            bootloaderVersion := version
            boots := chip.boots.push (UInt32.ofNat Layout.firmwareStart)
            calls := (chip.calls.push (.storeVersion version)).push
              (.boot (UInt32.ofNat Layout.firmwareStart)) } ∧
        started.commands.flash = called.commands.flash ∧
        service.node.commands = started.commands ∧
        service.node.link.value.packet = .idle ∧
        service.node.link.value.trace.taken = false ∧
        service.node.link.held = false := by
  have waits := Loop.waits_start quiet now
  have hEnded := waits.serve turns
  rw [← Service.run, ← hService] at hEnded
  rcases hEnded with hElse | ⟨hBooted, early, called, started, hTrail, starts⟩
  · exact .inl hElse
  · obtain ⟨⟨⟨info, hOk⟩, hFlash, hChip, hPacket, hFree, hHeld⟩, hEarly, hStarted, hSame, hLast,
      hIdle, hTrace, hUnlocked⟩ := starts
    have hRegion : ∀ i, SelfCheck.base ≤ i → i < SelfCheck.limit →
        called.commands.flash.bytes[i]? = flash.bytes[i]? :=
      fun i _ hStop => hFlash.outside (.inl (Nat.lt_of_lt_of_le hStop (by decide)))
    refine .inr ⟨hBooted, early, called, started, hTrail, hEarly, hChip, hPacket, hFree, hHeld,
      hRegion, ⟨info, hOk, ?_, ?_⟩, hStarted, hSame, hLast, hIdle.trans hPacket, ?_, hUnlocked⟩
    · rw [checkFirmware_congr hFlash.faults hFlash.size hRegion, hOk]
    · intro other readable hBytes
      refine checkFirmware_of_ok readable ?_ (fun i hStart hStop => ?_) hOk
      · rw [hBytes, hFlash.size]
      · rw [hBytes, hRegion i hStart hStop]
    · rw [hTrace, hFree]

/-- What is heard before the main loop begins: a byte of a packet that breaks off. -/
def Turn.prelude : List Node.Event :=
  [.byte 5, .silence]

/-- Turns in which the firmware is started whatever is heard: a byte of noise, a silence, and at
last a packet that has only begun when the time is up. -/
def Turn.lively : List Turn :=
  [{ sampling := [.byte 9], now := 10, idling := [.silence] }, { now := 2999, idling := [.byte 4] },
    { sampling := [.byte 0], now := 3000 }]

/-- A bootloader that decided to start the firmware soon does so in the last of those turns, though
a packet has begun by then. -/
theorem Service.run_lively (bootloader : Bootloader) :
    let service := run .linger 0 ((Node.start bootloader 3).run Turn.prelude) Turn.lively
    service.ending = .booted ∧ service.trail.head?.map (·.link.value.position) = some 2 :=
  ⟨rfl, rfl⟩

/-- A bootloader under an image of three pages hears noise and silences, and starts the image while
a packet is under way. -/
theorem boot_of_checked_installed :
    ∃ (image : Host.Image) (service : Service) (early : List (Node Bootloader))
        (called started : Node Bootloader),
      Host.Image.prepare ((List.range 2500).map UInt8.ofNat) = .ok image ∧
      (Node.start (Bootloader.start image.installed {} 512) 3).executions Turn.prelude = [] ∧
      service = Service.run (Bootloader.start image.installed {} 512).decide 0
        ((Node.start (Bootloader.start image.installed {} 512) 3).run Turn.prelude) Turn.lively ∧
      service.ending = .booted ∧
      service.trail = early ++ [called, started, service.node] ∧
      service.trail.head?.map (·.link.value.position) = some 2 ∧
      called.link.value.packet = .idle ∧
      called.commands.chip.calls = #[.storeVersion 512] ∧
      (∀ i, SelfCheck.base ≤ i → i < SelfCheck.limit →
        called.commands.flash.bytes[i]? = image.installed.bytes[i]?) ∧
      started.commands.chip.calls =
        #[.storeVersion 512, .boot (UInt32.ofNat Layout.firmwareStart)] := by
  have hData : ((List.range 2500).map UInt8.ofNat).length = 2500 := by
    rw [List.length_map, List.length_range]
  obtain ⟨image, hImage⟩ := Host.Image.prepare_total
    (by rw [hData]; decide) (by rw [hData]; decide)
  have hCheck := Host.Image.checkFirmware_installed (Host.Image.wellFormed_of_prepare hImage)
  generalize hFlash : image.installed = flash at hCheck
  have hDecide : (Bootloader.start flash {} 512).decide = .linger := by
    rw [Bootloader.decide, Bootloader.isValid, Bootloader.start, hCheck]
    rfl
  have quiet : (Node.start (Bootloader.start flash {} 512) 3).executions Turn.prelude = [] := rfl
  obtain ⟨hEnding, hTrail⟩ := Service.run_lively (Bootloader.start flash {} 512)
  rw [← hDecide] at hEnding hTrail
  rcases boot_of_checked flash {} 512 3 quiet 0 Turn.lively rfl with
    ⟨hElse, _⟩ | ⟨_, early, called, started, hSplit, _, hChip, hPacket, _, _, hRegion, _, hStarted, _⟩
  · exact absurd hEnding hElse
  · subst hFlash
    exact ⟨image, _, early, called, started, hImage, quiet, rfl, hEnding, hSplit, hTrail, hPacket,
      by rw [hChip]; rfl, hRegion, by rw [hStarted]; rfl⟩

end Multidrop
