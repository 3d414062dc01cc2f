import Multidrop.Proofs.Bootloader.Boot

/-!
When the main loop of a bootloader is left. A loop that nothing ends goes through its rounds, each
of which polls and then, while the loop still waits to start the firmware, reads the clock. The main
loop is such a loop cut off after the first round that asks for a reset or comes too late.
-/

namespace Multidrop

/-- One round of a main loop that nothing ends. -/
structure Round where
  /-- The command its poll executed. -/
  command : Option Command
  /-- The node right after the poll. -/
  node : Node Bootloader
  /-- The clock after the poll, unless it is not read any more. -/
  clock : Option Nat

namespace Round

/-- The rounds of a main loop that goes on whatever happens. While it waits, the clock is read and
what comes meanwhile is heard. It waits until a request tells that the host wants the bootloader. -/
def all (waits : Bool) (node : Node Bootloader) : List Turn → List Round
  | [] => []
  | turn :: rest =>
    let (command, node) := node.poll
    let waits := waits && !Loop.cancels command
    let after := if waits then node.hear turn.sampling else node
    ⟨command, node, if waits then some turn.now else none⟩ ::
      all waits (after.hear turn.idling) rest

/-- The clock reached the deadline by the time this round read it. -/
def Late (deadline : Nat) (round : Round) : Prop :=
  ∃ time, round.clock = some time ∧ deadline ≤ time

/-- A main loop does not go on after this round. -/
def Last (deadline : Nat) (round : Round) : Prop :=
  round.command = some .resetToFirmware ∨ round.Late deadline

theorem length_all (waits : Bool) (node : Node Bootloader) (turns : List Turn) :
    (all waits node turns).length = turns.length := by
  induction turns generalizing waits node with
  | nil => rfl
  | cons turn rest ih => exact congrArg (· + 1) (ih ..)

/-- A round reads the clock only if the loop waited from the start and no request up to this round
ended that. -/
theorem waits_of_clock {waits : Bool} {node : Node Bootloader} {turns : List Turn}
    {before after : List Round} {round : Round}
    (h : all waits node turns = before ++ round :: after) (hClock : round.clock ≠ none) :
    waits = true ∧ ∀ earlier ∈ before ++ [round], Loop.cancels earlier.command = false := by
  induction turns generalizing waits node before with
  | nil => simp [all] at h
  | cons turn rest ih =>
      -- A loop that does not wait any more never waits again, so a later round tells of this one.
      cases before with
      | nil =>
          obtain ⟨rfl, _⟩ := List.cons.inj h
          simpa using hClock
      | cons first before =>
          obtain ⟨rfl, hRest⟩ := List.cons.inj h
          obtain ⟨hWaits, hBefore⟩ := ih hRest
          rw [Bool.and_eq_true, Bool.not_eq_true'] at hWaits
          rw [List.cons_append, List.forall_mem_cons]
          exact ⟨hWaits.1, hWaits.2, hBefore⟩

end Round

/-! ## What the loop does to the chip -/

namespace Node

/-- A poll that resets to the firmware has stored how to boot, and asked for one reset. -/
theorem chip_poll_reset {node : Node Bootloader} (h : node.poll.1 = some .resetToFirmware) :
    node.poll.2.commands.chip = node.commands.chip.restarted := by
  cases hDue : node.due? with
  | none =>
      rw [(poll_of_not_due hDue).1] at h
      cases h
  | some execution =>
      obtain ⟨hCommand, hLink, hCommands, _, _⟩ := poll_of_due hDue
      rw [hCommand] at h
      rw [commands, hLink, ← hCommands]
      have hReset : execution.request.header.command = .resetToFirmware := Option.some.inj h
      change (Bootloader.execute execution.commands execution.request execution.session).2.chip = _
      simp only [Bootloader.execute, hReset, Chip.restarted_eq]

/-- Any other poll leaves the chip and the version alone. -/
theorem chip_poll {node : Node Bootloader} (h : node.poll.1 ≠ some .resetToFirmware) :
    node.poll.2.commands.chip = node.commands.chip ∧
      node.poll.2.commands.version = node.commands.version := by
  cases hDue : node.due? with
  | none =>
      rw [commands, (poll_of_not_due hDue).2.commands]
      exact ⟨rfl, rfl⟩
  | some execution =>
      obtain ⟨hCommand, hLink, hCommands, _, _⟩ := poll_of_due hDue
      rw [hCommand] at h
      have hOther : execution.request.header.command ≠ .resetToFirmware :=
        fun hReset => h (congrArg some hReset)
      rw [commands, hLink, ← hCommands]
      exact ⟨execution.commands.execute_chip execution.session hOther,
        (execution.commands.execute_boots execution.request execution.session).2⟩

/-- What is heard between polls does not change the commands. -/
theorem commands_hear (node : Node Bootloader) (traffic : List Traffic) :
    (node.hear traffic).commands = node.commands :=
  (node.kept_hear traffic).commands

end Node

namespace Loop

/-- A node that is left to its firmware has told the chip its version and then to start the
firmware. -/
theorem chip_boot (node : Node Bootloader) :
    (boot node).commands.chip = node.commands.chip.started node.commands.version := by
  have hCommands : node.lock.commands = node.commands := (Node.kept_lock node).commands
  rw [← hCommands]
  rfl

/-! ## The loop cut off -/

variable {loop : Loop} {world : Turn}

/-- A turn whose poll reset to the firmware is the last one. -/
theorem turn_of_reset (h : loop.node.poll.1 = some .resetToFirmware) :
    loop.turn world = .inl ⟨.reset, loop.turns, loop.node.poll.2, []⟩ := by
  unfold turn
  generalize loop.node.poll = polled at h ⊢
  obtain ⟨command, node⟩ := polled
  obtain rfl : command = some .resetToFirmware := h
  rfl

/-- Any other turn ends the loop only if the loop still waits and the clock is late. -/
theorem turn_of_other (h : loop.node.poll.1 ≠ some .resetToFirmware) :
    loop.turn world =
      match if cancels loop.node.poll.1 then none else loop.deadline with
      | none => .inr (loop.idle none loop.node.poll.2 world)
      | some deadline =>
        if deadline ≤ world.now then
          .inl ⟨.booted, loop.turns, boot (loop.node.poll.2.hear world.sampling),
            passed (loop.node.poll.2.hear world.sampling) farewell⟩
        else .inr (loop.idle (some deadline) (loop.node.poll.2.hear world.sampling) world) := by
  unfold turn
  generalize loop.node.poll = polled at h ⊢
  obtain ⟨command, node⟩ := polled
  split
  · next hPolled =>
      obtain ⟨rfl, _⟩ := Prod.mk.inj hPolled
      exact absurd rfl h
  · next hPolled =>
      obtain ⟨rfl, rfl⟩ := Prod.mk.inj hPolled
      rfl

/-- How a loop ends that found the chip and the version as given, in front of the rounds that it
does not go through completely. -/
inductive Closes (deadline : Nat) (chip : Chip) (version : UInt32) :
    List Round → Ending → Node Bootloader → Prop where
  | serving {node : Node Bootloader} (hChip : node.commands.chip = chip) :
      Closes deadline chip version [] .serving node
  | reset {round : Round} {rest : List Round}
      (hCommand : round.command = some .resetToFirmware)
      (hChip : round.node.commands.chip = chip.restarted) :
      Closes deadline chip version (round :: rest) .reset round.node
  | booted {round : Round} {rest : List Round} {node : Node Bootloader}
      (hCommand : round.command ≠ some .resetToFirmware) (late : round.Late deadline)
      (hChip : node.commands.chip = chip.started version) :
      Closes deadline chip version (round :: rest) .booted node

/-- A service that went on after the first of some rounds, none of which is a last one, and ended in
front of the others. -/
def Cut (deadline : Nat) (chip : Chip) (version : UInt32) (turns : Nat) (rounds : List Round)
    (service : Service) : Prop :=
  ∃ before after, rounds = before ++ after ∧ service.turns = turns + before.length ∧
    (∀ round ∈ before, ¬ round.Last deadline) ∧
    Closes deadline chip version after service.ending service.node

variable {deadline turns : Nat} {chip : Chip} {version : UInt32} {rounds : List Round}

/-- A run is cut at the round in which it is closed. -/
theorem Cut.here {ending : Ending} {node : Node Bootloader} {trail : List (Node Bootloader)}
    (closes : Closes deadline chip version rounds ending node) :
    Cut deadline chip version turns rounds ⟨ending, turns, node, trail⟩ :=
  ⟨[], rounds, rfl, rfl, by simp, closes⟩

theorem Cut.later {round : Round} {service : Service} (hOn : ¬ round.Last deadline)
    (cut : Cut deadline chip version (turns + 1) rounds service) :
    Cut deadline chip version turns (round :: rounds) service := by
  obtain ⟨before, after, rfl, hTurns, hBefore, closes⟩ := cut
  refine ⟨round :: before, after, rfl, ?_, List.forall_mem_cons.mpr ⟨hOn, hBefore⟩, closes⟩
  rw [hTurns, List.length_cons]
  omega

/-- A main loop goes through the rounds that nothing ends, up to the first one that is a last
one. -/
theorem cut_serve {waits : Bool} (hDeadline : loop.deadline = if waits then some deadline else none)
    (worlds : List Turn) :
    Cut deadline loop.node.commands.chip loop.node.commands.version loop.turns
      (Round.all waits loop.node worlds) (loop.serve worlds) := by
  induction worlds generalizing loop waits with
  | nil => exact .here (.serving rfl)
  | cons world rest ih =>
      rw [serve, Round.all]
      by_cases hReset : loop.node.poll.1 = some .resetToFirmware
      · rw [turn_of_reset hReset]
        exact .here (.reset hReset (Node.chip_poll_reset hReset))
      · obtain ⟨hChip, hVersion⟩ := Node.chip_poll hReset
        -- The deadline stands as long as the loop waits.
        have hNext : (if cancels loop.node.poll.1 then none else loop.deadline) =
            if waits && !cancels loop.node.poll.1 then some deadline else none := by
          rw [hDeadline]
          cases waits <;> cases cancels loop.node.poll.1 <;> rfl
        rw [turn_of_other hReset, hNext, ← hChip, ← hVersion]
        dsimp only
        generalize (waits && !cancels loop.node.poll.1) = waits
        cases waits with
        | false =>
            have hNone : (loop.idle none loop.node.poll.2 world).deadline =
                if false then some deadline else none := rfl
            have cut := ih hNone
            rw [idle, Node.commands_hear] at cut
            exact cut.later fun hLast => by simp [Round.Last, Round.Late, hReset] at hLast
        | true =>
            simp only [if_true]
            by_cases hTime : deadline ≤ world.now
            · rw [if_pos hTime]
              have hBooted := chip_boot (loop.node.poll.2.hear world.sampling)
              rw [Node.commands_hear] at hBooted
              exact .here (.booted hReset ⟨world.now, rfl, hTime⟩ hBooted)
            · rw [if_neg hTime]
              have hSame : (loop.idle (some deadline) (loop.node.poll.2.hear world.sampling)
                  world).deadline = if true then some deadline else none := rfl
              have cut := ih hSame
              rw [idle, Node.commands_hear, Node.commands_hear] at cut
              exact cut.later fun hLast => by
                simp [Round.Last, Round.Late, hReset, hTime] at hLast

namespace Closes

variable {before after : List Round} {ending : Ending} {node : Node Bootloader}

/-- The loop ended by a reset if and only if one of its polls asked for that. -/
theorem reset_iff (closes : Closes deadline chip version after ending node)
    (hBefore : ∀ round ∈ before, ¬ round.Last deadline) :
    ending = .reset ↔ ∃ round ∈ before ++ after.take 1, round.command = some .resetToFirmware := by
  have hNone : ¬∃ round ∈ before, round.command = some .resetToFirmware :=
    fun ⟨round, hMem, hCommand⟩ => hBefore round hMem (.inl hCommand)
  cases closes with
  | serving => simpa using hNone
  | reset hCommand => exact iff_of_true rfl ⟨_, by simp, hCommand⟩
  | booted hCommand => simpa [or_and_right, exists_or, hCommand] using hNone

/-- The loop started the firmware if and only if one of its rounds was late and none of its polls
asked for a reset. -/
theorem booted_iff (closes : Closes deadline chip version after ending node)
    (hBefore : ∀ round ∈ before, ¬ round.Last deadline) :
    ending = .booted ↔
      (∀ round ∈ before ++ after.take 1, round.command ≠ some .resetToFirmware) ∧
        ∃ round ∈ before ++ after.take 1, round.Late deadline := by
  have hOn : ∀ round ∈ before, round.command ≠ some .resetToFirmware :=
    fun round hMem hCommand => hBefore round hMem (.inl hCommand)
  constructor
  · rintro rfl
    cases closes with
    | @booted round rest _ hCommand late =>
        refine ⟨fun other hMem => ?_, round, by simp, late⟩
        rcases List.mem_append.mp hMem with h | h
        · exact hOn other h
        · obtain rfl : other = round := by simpa using h
          exact hCommand
  · rintro ⟨hCommands, round, hMem, late⟩
    cases closes with
    | serving => exact absurd (.inr late) (hBefore round (by simpa using hMem))
    | reset hCommand => exact absurd hCommand (hCommands _ (by simp))
    | booted => rfl

/-- A loop that started the firmware waited until then. -/
theorem waited (closes : Closes deadline chip version after .booted node) {waits : Bool}
    {first : Node Bootloader} {worlds : List Turn}
    (hRounds : Round.all waits first worlds = before ++ after) :
    waits = true ∧ ∀ round ∈ before ++ after.take 1, cancels round.command = false := by
  cases closes with
  | booted _ late =>
      obtain ⟨time, hClock, _⟩ := late
      exact Round.waits_of_clock hRounds (by simp [hClock])

/-- A loop that started the firmware did so in the first round that was late. -/
theorem first_late (closes : Closes deadline chip version after .booted node)
    (hBefore : ∀ round ∈ before, ¬ round.Last deadline) :
    (∃ round time, after[0]? = some round ∧ round.clock = some time ∧ deadline ≤ time) ∧
      (∀ round ∈ before, ∀ time, round.clock = some time → time < deadline) ∧
      node.commands.chip = chip.started version := by
  cases closes with
  | @booted round rest _ _ late hChip =>
      obtain ⟨time, hClock, hTime⟩ := late
      refine ⟨⟨round, time, rfl, hClock, hTime⟩, fun earlier hMem other hOther => ?_, hChip⟩
      exact Nat.lt_of_not_le fun hLate => hBefore earlier hMem (.inr ⟨other, hOther, hLate⟩)

/-- A loop that a reset ended is left as it was after the first poll that asked for it. -/
theorem first_reset (closes : Closes deadline chip version after .reset node)
    (hBefore : ∀ round ∈ before, ¬ round.Last deadline) :
    (∃ round, after[0]? = some round ∧ round.command = some .resetToFirmware ∧
        node = round.node) ∧
      (∀ round ∈ before, round.command ≠ some .resetToFirmware) ∧
      node.commands.chip = chip.restarted := by
  cases closes with
  | @reset round rest hCommand hChip =>
      exact ⟨⟨round, rfl, hCommand, rfl⟩,
        fun earlier hMem hOther => hBefore earlier hMem (.inl hOther), hChip⟩

/-- A run that does not end with the start of the firmware starts nothing. -/
theorem boots_of_other (closes : Closes deadline chip version after ending node)
    (h : ending ≠ .booted) : node.commands.chip.boots = chip.boots := by
  cases closes with
  | serving hChip => rw [hChip]
  | reset _ hChip =>
      rw [hChip]
      rfl
  | booted => exact absurd rfl h

end Closes

/-- A loop has a deadline if the decision was to wait, three seconds after it is entered. -/
theorem deadline_start (decision : Decision) (entry : Nat) (node : Node Bootloader) :
    (start decision entry node).deadline =
      if decision == .linger then some (entry + 3000) else none := by
  cases decision <;> rfl

/-- All commands but these two let the deadline stand. -/
theorem cancels_eq_false_iff (command : Option Command) :
    cancels command = false ↔
      command ≠ some .resetToBootloader ∧ command ≠ some .flashFirmware := by
  unfold cancels
  split <;> simp_all

end Loop

/-- When the main loop is left, for any node, any clock and anything that is heard. The polls are
those of the rounds that the loop came to. It starts the firmware if and only if it was to linger,
none of them showed interest in the bootloader or asked for a reset, and the clock was read late
enough after one of them; that one is the first such. It returns if and only if one of them reset to
the firmware, right after that one, with the boot flag stored and one reset asked for. With any
other decision, and after any poll that showed interest, it never starts the firmware. -/
theorem Service.run_ending (decision : Decision) (entry : Nat) (node : Node Bootloader)
    (turns : List Turn) {service : Service} (hService : service = run decision entry node turns)
    {rounds polls : List Round} (hRounds : rounds = Round.all (decision == .linger) node turns)
    (hPolls : polls = rounds.take (service.turns + 1)) :
    (service.ending = .booted ↔ decision = .linger ∧
        (∀ round ∈ polls, round.command ≠ some .resetToBootloader ∧
          round.command ≠ some .flashFirmware ∧ round.command ≠ some .resetToFirmware) ∧
        ∃ round ∈ polls, ∃ time, round.clock = some time ∧ entry + 3000 ≤ time) ∧
      (service.ending = .booted →
        (∃ round time, rounds[service.turns]? = some round ∧ round.clock = some time ∧
          entry + 3000 ≤ time) ∧
        (∀ round ∈ rounds.take service.turns, ∀ time, round.clock = some time →
          time < entry + 3000) ∧
        service.node.commands.chip =
          { node.commands.chip with
            bootloaderVersion := node.commands.version
            boots := node.commands.chip.boots.push (UInt32.ofNat Layout.firmwareStart)
            calls := (node.commands.chip.calls.push (.storeVersion node.commands.version)).push
              (.boot (UInt32.ofNat Layout.firmwareStart)) }) ∧
      (service.ending = .reset ↔ ∃ round ∈ polls, round.command = some .resetToFirmware) ∧
      (service.ending = .reset →
        (∃ round, rounds[service.turns]? = some round ∧
          round.command = some .resetToFirmware ∧ service.node = round.node) ∧
        (∀ round ∈ rounds.take service.turns, round.command ≠ some .resetToFirmware) ∧
        service.node.commands.chip =
          { node.commands.chip with
            flag := 2
            resets := node.commands.chip.resets + 1
            calls := (node.commands.chip.calls.push (.setBootFlag .enforceNormalBoot)).push
              .reset } ∧
        service.node.commands.chip.bootFlag = .enforceNormalBoot) ∧
      (service.ending = .serving →
        service.turns = turns.length ∧ service.node.commands.chip = node.commands.chip) ∧
      ((decision ≠ .linger ∨ ∃ round ∈ polls, round.command = some .resetToBootloader ∨
          round.command = some .flashFirmware) → service.ending ≠ .booted) ∧
      (service.ending ≠ .booted →
        service.node.commands.chip.boots = node.commands.chip.boots) := by
  obtain ⟨ending, count, last, trail⟩ := service
  obtain ⟨before, after, hAll, hCount, hBefore, closes⟩ :=
    Loop.cut_serve (Loop.deadline_start decision entry node) turns
  rw [run] at hService
  rw [← hService] at hCount closes
  dsimp only [Loop.start] at hAll hCount closes ⊢
  obtain rfl : count = before.length := by rw [hCount, Nat.zero_add]
  rw [hAll] at hRounds
  have hFirst : rounds.take before.length = before := by rw [hRounds, List.take_left]
  have hNext : rounds[before.length]? = after[0]? := by
    rw [hRounds, List.getElem?_append_right (Nat.le_refl _), Nat.sub_self]
  have hPolled : polls = before ++ after.take 1 := by
    rw [hPolls, hRounds, List.take_length_add_append]
  have hBooted := closes.booted_iff hBefore
  have hReset := closes.reset_iff hBefore
  have hWaited : ending = .booted → decision = .linger ∧
      ∀ round ∈ polls, round.command ≠ some .resetToBootloader ∧
        round.command ≠ some .flashFirmware := by
    rintro rfl
    obtain ⟨hLinger, hCancels⟩ := closes.waited hAll
    rw [← hPolled] at hCancels
    exact ⟨eq_of_beq hLinger,
      fun round hMem => (Loop.cancels_eq_false_iff _).mp (hCancels round hMem)⟩
  rw [← hPolled] at hBooted hReset
  rw [hFirst, hNext]
  refine ⟨⟨?_, ?_⟩, ?_, hReset, ?_, ?_, ?_, closes.boots_of_other⟩
  · intro hEnding
    obtain ⟨hLinger, hOthers⟩ := hWaited hEnding
    obtain ⟨hCommands, late⟩ := hBooted.mp hEnding
    exact ⟨hLinger, fun round hMem =>
      ⟨(hOthers round hMem).1, (hOthers round hMem).2, hCommands round hMem⟩, late⟩
  · rintro ⟨_, hCommands, late⟩
    exact hBooted.mpr ⟨fun round hMem => (hCommands round hMem).2.2, late⟩
  · rintro rfl
    exact closes.first_late hBefore
  · rintro rfl
    obtain ⟨hRound, hOthers, hChip⟩ := closes.first_reset hBefore
    exact ⟨hRound, hOthers, hChip, by rw [hChip]; rfl⟩
  · rintro rfl
    cases closes with
    | serving hChip =>
        rw [← Round.length_all (decision == .linger) node turns, hAll, List.append_nil]
        exact ⟨rfl, hChip⟩
  · intro hElse hEnding
    obtain ⟨hLinger, hOthers⟩ := hWaited hEnding
    rcases hElse with hDecision | ⟨round, hMem, hCommand⟩
    · exact hDecision hLinger
    · exact hCommand.elim (hOthers round hMem).1 (hOthers round hMem).2

/-- A request to reset to the firmware that comes just before the deadline. -/
def Turn.lastMoment : List Turn :=
  [{ now := 2999, idling := (toWire (Header.ofLength 4 3 .resetToFirmware)).map .byte },
    { now := 3000 }]

/-- A request to reset that is executed when the time is up already wins: one reset is asked for,
the boot flag is stored before it, and no firmware is started. -/
theorem Service.run_ending_reset :
    ∃ (node : Node Bootloader) (service : Service),
      service = run .linger 0 node Turn.lastMoment ∧ service.ending = .reset ∧
      service.turns = 1 ∧ service.node.commands.chip =
        { flag := 2, resets := 1, calls := #[.setBootFlag .enforceNormalBoot, .reset] } := by
  let node : Node Bootloader := .start (.start { bytes := #[] } {} 512) 3
  have hEnding : (run .linger 0 node Turn.lastMoment).ending = .reset := rfl
  obtain ⟨_, _, _, hReset, _⟩ := run_ending .linger 0 node Turn.lastMoment rfl rfl rfl
  obtain ⟨_, _, hChip, _⟩ := hReset hEnding
  exact ⟨node, _, rfl, hEnding, rfl, hChip⟩

end Multidrop
