import Mathlib.Data.List.DropRight
import Multidrop.Proofs.Network.Request
import Multidrop.Proofs.Protection
import Multidrop.Proofs.Reply
import Multidrop.Proofs.Store.Append

/-!
The address of a node, live and kept. A node takes a new address only once it is stored, so it lives
under the last one it said yes to. What it comes up with after a restart is that too, unless its
configuration was erased meanwhile.
-/

namespace Multidrop

/-- What a request does to the address of a node and to the flash that keeps it. -/
inductive Configures (request : Request) (flash : Flash) (actions : List Action) (after : Flash) :
    Prop where
  | set {address : UInt8} (hCommand : request.header.command = .setAddress)
      (hPayload : request.payload = .address address)
      (h : Shared.setAddress flash address = (actions, after))
  | erase (hCommand : request.header.command = .eraseConfig) (hActions : actions = [])
      (h : (Store.standard.erase flash).2 = after)
  /-- It does neither, and what it changes is not in the store. -/
  | other {start stop : Nat}
      (hSet : ∀ address, request.header.command = .setAddress → request.payload ≠ .address address)
      (hErase : request.header.command ≠ .eraseConfig)
      (hActions : ∀ address, .setAddress address ∉ actions)
      (hStop : stop ≤ Store.standard.start) (h : Flash.Confined start stop flash after)

/-- Where no address is assigned and nothing is erased, to leave the flash alone is what was asked
for. -/
theorem configures_nothing {request : Request} {flash : Flash} {actions : List Action}
    (hSet : ∀ address, request.header.command = .setAddress → request.payload ≠ .address address)
    (hErase : request.header.command ≠ .eraseConfig)
    (hActions : ∀ address, .setAddress address ∉ actions) :
    Configures request flash actions flash :=
  .other hSet hErase hActions (Nat.zero_le _) (.refl 0 0 flash)

/-- That is so of all commands but the two that are made for it. -/
theorem configures_of_command {request : Request} {command : Command}
    (hCommand : request.header.command = command)
    (hOther : command ≠ .setAddress ∧ command ≠ .eraseConfig) {flash : Flash}
    {actions : List Action} (hActions : ∀ address, .setAddress address ∉ actions) :
    Configures request flash actions flash := by
  subst hCommand
  exact configures_nothing (fun _ hSet => absurd hSet hOther.1) hOther.2 hActions

/-- No answer of an identity assigns an address. -/
theorem Identity.not_mem_answer (identity : Identity) (session : Session) (item : Query)
    (address : UInt8) : .setAddress address ∉ identity.answer session item := by
  cases item <;> simp [answer]

/-- What both programs share configures the node as the request asks. -/
theorem Shared.configures (request : Request) (session : Session) (identity : Identity)
    (flash : Flash) :
    Configures request flash (execute request session identity flash).1
      (execute request session identity flash).2 := by
  unfold execute
  split
  · next hCommand => exact configures_of_command hCommand (by decide) (by simp)
  · next item hCommand _ =>
      exact configures_of_command hCommand (by decide) (identity.not_mem_answer session item)
  · next address hCommand hPayload => exact .set hCommand hPayload rfl
  · next hCommand => exact .erase hCommand rfl rfl
  · next _ hErase _ hSet => exact configures_nothing hSet hErase (by simp)

/-- The bootloader configures the node as the request asks. -/
theorem Bootloader.configures (bootloader : Bootloader) (request : Request) (session : Session) :
    Configures request bootloader.flash (execute bootloader request session).1
      (execute bootloader request session).2.flash := by
  unfold execute
  split
  · next hCommand => exact configures_of_command hCommand (by decide) (by simp)
  · next hCommand => exact configures_of_command hCommand (by decide) (by simp)
  · next hCommand _ => exact configures_of_command hCommand (by decide) (by simp [readMemory])
  · next hCommand _ => exact configures_of_command hCommand (by decide) (by simp)
  · next page hCommand _ =>
      rw [replacePage_eq]
      exact .other (by simp [hCommand]) (by simp [hCommand]) (by simp) (by decide)
        (flashPage_confined bootloader.flash page)
  · next hCommand _ => exact configures_of_command hCommand (by decide) (by simp)
  · rw [share_eq, ← bootloader.refresh_kept.1]
    exact Shared.configures ..
  · rw [share_eq]
    exact Shared.configures ..

/-- So does the firmware. -/
theorem Firmware.configures (firmware : Firmware) (request : Request) (session : Session) :
    Configures request firmware.flash (execute firmware request session).1
      (execute firmware request session).2.flash := by
  unfold execute
  split
  · next hCommand => exact configures_of_command hCommand (by decide) (by simp)
  · next hCommand => exact configures_of_command hCommand (by decide) (by simp)
  · next hCommand _ => exact configures_of_command hCommand (by decide) (by simp)
  · next hCommand _ => exact configures_of_command hCommand (by decide) (by simp)
  · next hCommand _ => exact configures_of_command hCommand (by decide) (by simp)
  · next hCommand _ => exact configures_of_command hCommand (by decide) (by simp)
  · rw [share_eq]
    exact Shared.configures ..

namespace Store

/-- How many bytes of a store are free, as far as a record fits there. -/
def left (store : Store) (flash : Flash) : Nat :=
  match store.find flash unset with
  | .ok (some slot) => store.stop - slot.offset
  | _ => 0

/-- A record of one word fits as long as its end lies within the region. -/
theorem Holds.wordSpan_le_left {store : Store} {flash : Flash} {records : List Record} {free : Nat}
    (holds : store.Holds flash records free) :
    wordSpan ≤ store.left flash ↔ free + wordSpan ≤ store.stop := by
  rw [left, holds.find_unset]
  by_cases hRoom : free + recordHeader ≤ store.stop
  · rw [if_pos hRoom]
    dsimp only
    omega
  · rw [if_neg hRoom]
    simp only [wordSpan]
    omega

/-- An address is stored if there is room for one, and otherwise nothing happens. -/
theorem setAddress_of_sound {flash : Flash} (sound : flash.Sound)
    (formed : standard.WellFormed flash) (address : UInt8) :
    if wordSpan ≤ standard.left flash then
      ∃ after, Shared.setAddress flash address = ([.setAddress address, .send [0]], after) ∧
        after.Sound ∧ standard.WellFormed after ∧ storedAddress after = address
    else Shared.setAddress flash address = ([.send [0xFE]], flash) := by
  obtain ⟨records, free, holds⟩ := formed
  have hKind : addressKind ≠ unset := by decide
  have hLength : (toWire address.toUInt32).length = 4 := length_toWire _
  have hSpan : recordSpan (toWire address.toUInt32).length = wordSpan := by rw [hLength]; rfl
  by_cases hRoom : wordSpan ≤ standard.left flash
  · rw [if_pos hRoom]
    have hFits : free + recordSpan (toWire address.toUInt32).length ≤ standard.stop :=
      hSpan ▸ holds.wordSpan_le_left.mp hRoom
    obtain ⟨after, hWrite, confined, hHolds, hData⟩ :=
      holds.write_of_fits sound (by decide) hKind hFits
    rw [hLength] at hData
    rw [hSpan, hLength] at hHolds
    have hWord : standard.getWord after addressKind = .ok (some address.toUInt32) :=
      hHolds.getWord_last hKind hData
    refine ⟨after, ?_, confined.sound sound, ⟨_, _, hHolds⟩, ?_⟩
    · rw [Shared.setAddress, setWord, hWrite]
    · rw [storedAddress, hWord]
      exact UInt8.toUInt8_toUInt32 address
  · rw [if_neg hRoom]
    have hFull : standard.stop < free + recordSpan (toWire address.toUInt32).length := by
      rw [holds.wordSpan_le_left] at hRoom
      omega
    rw [Shared.setAddress, setWord, holds.write_eq hKind, if_pos hFull]
    rfl

/-- An erased store keeps no address. -/
theorem erase_standard {flash : Flash} (sound : flash.Sound) (formed : standard.WellFormed flash) :
    (standard.erase flash).2.Sound ∧ standard.WellFormed (standard.erase flash).2 ∧
      storedAddress (standard.erase flash).2 = 0 := by
  obtain ⟨records, free, holds⟩ := formed
  have hErase := erase_of_sound sound holds.inside
  rw [if_pos (by decide)] at hErase
  have confined := standard.erase_confined flash
  have hHolds : standard.Holds (standard.erase flash).2 [] standard.start :=
    holds_blank (confined.sound sound) (confined.size.symm ▸ holds.inside) holds.addressable
      hErase.2
  have hFind := hHolds.find_kind (by decide : addressKind ≠ unset)
  refine ⟨confined.sound sound, ⟨_, _, hHolds⟩, ?_⟩
  rw [storedAddress, getWord, hFind]
  rfl

end Store

namespace Execution

variable {C : Type} [CommandSet C]

/-- What the line carries of an execution. -/
def answer (execution : Execution C) : List UInt8 :=
  execution.ended.trace.written.drop execution.session.trace.written.length

/-- The answer of an execution is the reply that its actions make. -/
theorem answer_eq (execution : Execution C) :
    execution.answer = Session.reply execution.session.remaining execution.actions := by
  rw [answer, ended, (execution.session.run_spec execution.actions).1, List.drop_left]

/-- The address that a node was given and said yes to. -/
def assigned? (execution : Execution C) : Option UInt8 :=
  match execution.request.header.command, execution.request.payload with
  | .setAddress, .address address => if execution.answer = [0] then some address else none
  | _, _ => none

/-- Whether the configuration was erased. -/
def erases (execution : Execution C) : Bool :=
  execution.request.header.command == .eraseConfig

/-- The address that a node lives under after some executions. -/
def liveAddress (initial : UInt8) (executions : List (Execution C)) : UInt8 :=
  (executions.filterMap assigned?).getLast?.getD initial

/-- The address that a node comes up with after some executions: the last one since the
configuration was erased, or else the one from before, or zero if that was erased. -/
def keptAddress (initial : UInt8) (executions : List (Execution C)) : UInt8 :=
  let recent := executions.rtakeWhile fun execution => !execution.erases
  match (recent.filterMap assigned?).getLast? with
  | some address => address
  | none => if executions.any erases then 0 else initial

/-- One more execution changes the live address to the address that it assigns, if any. -/
theorem liveAddress_concat (initial : UInt8) (executions : List (Execution C))
    (execution : Execution C) :
    liveAddress initial (executions ++ [execution]) =
      execution.assigned?.getD (liveAddress initial executions) := by
  rw [liveAddress, List.filterMap_append, liveAddress]
  cases hAssigned : execution.assigned? with
  | none => simp [hAssigned]
  | some address => simp [hAssigned]

/-- An execution that erases the configuration assigns no address. -/
theorem assigned?_of_erases {execution : Execution C} (h : execution.erases = true) :
    execution.assigned? = none := by
  have hCommand : execution.request.header.command = .eraseConfig := eq_of_beq h
  simp only [assigned?, hCommand]

/-- One more execution changes the stored address to the address that it assigns, and erasing clears
it. -/
theorem keptAddress_concat (initial : UInt8) (executions : List (Execution C))
    (execution : Execution C) :
    keptAddress initial (executions ++ [execution]) =
      if execution.erases then 0
      else execution.assigned?.getD (keptAddress initial executions) := by
  rw [keptAddress, List.rtakeWhile_concat]
  cases hErases : execution.erases with
  | true => simp [hErases]
  | false =>
      cases hAssigned : execution.assigned? with
      | none => simp [hErases, hAssigned, keptAddress]
      | some address => simp [hAssigned]

end Execution

/-- Actions that assign no address leave it as it is. -/
theorem Session.address_run (session : Session) {actions : List Action}
    (h : ∀ address, .setAddress address ∉ actions) :
    (session.run actions).address = session.address := by
  induction actions generalizing session with
  | nil => rfl
  | cons action rest ih =>
      have hRest := ih (session.perform action) fun address hMem => h address (.tail action hMem)
      refine hRest.trans ?_
      cases action with
      | send bytes => exact address_send session bytes
      | fill byte => exact address_fill session byte
      | setAddress address => exact absurd (List.mem_cons_self ..) (h address)

/-- A new address is taken and kept, or refused without effect where there is no room for it. -/
theorem Execution.sets {C : Type} [CommandSet C] {execution : Execution C} {flash after : Flash}
    (sound : flash.Sound) (formed : Store.standard.WellFormed flash) {address : UInt8}
    (h : Shared.setAddress flash address = (execution.actions, after)) :
    if Store.wordSpan ≤ Store.standard.left flash then
      execution.answer = [0] ∧ execution.ended.address = address ∧ after.Sound ∧
        Store.standard.WellFormed after ∧ Store.storedAddress after = address
    else
      execution.answer = [0xFE] ∧ execution.ended.address = execution.session.address ∧
        after = flash := by
  have hSet := Store.setAddress_of_sound sound formed address
  rw [Execution.answer_eq, Execution.ended]
  split at hSet
  case isTrue hRoom =>
    obtain ⟨stored, hStored, hSound, hFormed, hAddress⟩ := hSet
    obtain ⟨hActions, rfl⟩ := Prod.mk.inj (hStored.symm.trans h)
    rw [if_pos hRoom, ← hActions]
    exact ⟨rfl, Session.address_send _ [0], hSound, hFormed, hAddress⟩
  case isFalse hFull =>
    obtain ⟨hActions, rfl⟩ := Prod.mk.inj (hSet.symm.trans h)
    rw [if_neg hFull, ← hActions]
    exact ⟨rfl, execution.session.address_run (by simp), rfl⟩

/-- What one execution does to the address that is live and to the one that is kept. -/
theorem Configures.settles {C : Type} [CommandSet C] {execution : Execution C} {flash after : Flash}
    (configures : Configures execution.request flash execution.actions after) (sound : flash.Sound)
    (formed : Store.standard.WellFormed flash) :
    after.Sound ∧ Store.standard.WellFormed after ∧
      execution.ended.address = execution.assigned?.getD execution.session.address ∧
      Store.storedAddress after =
        if execution.erases then 0 else execution.assigned?.getD (Store.storedAddress flash) := by
  cases configures with
  | @set address hCommand hPayload h =>
      have hErases : execution.erases = false := by rw [Execution.erases, hCommand]; rfl
      have hSet := Execution.sets sound formed h
      split at hSet
      · obtain ⟨hAnswer, hAddress, hSound, hFormed, hStored⟩ := hSet
        have hAssigned : execution.assigned? = some address := by
          simp only [Execution.assigned?, hCommand, hPayload, hAnswer, if_true]
        rw [hErases, hAssigned]
        exact ⟨hSound, hFormed, hAddress, hStored⟩
      · obtain ⟨hAnswer, hAddress, rfl⟩ := hSet
        have hAssigned : execution.assigned? = none := by
          simp [Execution.assigned?, hCommand, hPayload, hAnswer]
        rw [hErases, hAssigned]
        exact ⟨sound, formed, hAddress, rfl⟩
  | erase hCommand hActions h =>
      have hErases : execution.erases = true := beq_iff_eq.mpr hCommand
      obtain ⟨hSound, hFormed, hStored⟩ := Store.erase_standard sound formed
      rw [hErases, Execution.assigned?_of_erases hErases, ← h, Execution.ended, hActions]
      exact ⟨hSound, hFormed, rfl, hStored⟩
  | other hSet hErase hActions hStop h =>
      have hErases : execution.erases = false := beq_eq_false_iff_ne.mpr hErase
      have hAssigned : execution.assigned? = none := by
        unfold Execution.assigned?
        split
        · next address hCommand hPayload => exact absurd hPayload (hSet address hCommand)
        · rfl
      obtain ⟨records, free, holds⟩ := formed
      rw [hErases, hAssigned]
      refine ⟨h.sound sound, ⟨records, free, holds.elsewhere h hStop⟩, ?_, ?_⟩
      · exact execution.session.address_run hActions
      · rw [Store.storedAddress, holds.getWord_elsewhere h hStop (by decide)]
        rfl

namespace Node

variable {C : Type} {node : Node C}

/-- An execution starts with the address of the node. -/
theorem address_of_due {execution : Execution C} (h : node.due? = some execution) :
    execution.session.address = node.address := by
  have hAddress : node.catchUp.link.value.address = node.address := (kept_catchUp node).address
  unfold due? at h
  split at h
  case isTrue hHeld => cases h
  case isFalse hHeld =>
      generalize node.catchUp = caught at h hAddress
      obtain ⟨⟨⟨commands, address, packet, trace⟩, held⟩, ready, expired⟩ := caught
      cases packet with
      | opening bytes => cases h
      | passing header position collector => cases h
      | ready request position =>
          cases ready with
          | false => cases h
          | true =>
              cases h
              exact hAddress

variable [CommandSet C]

/-- The node as it went through some events keeps to the address it was given last: under this
address it lives and is asked, and the flash keeps it for the next restart. -/
structure Remembers (flash : C → Flash) (node : Node C) (events : List Event) : Prop where
  live : (node.run events).address = Execution.liveAddress node.address (node.executions events)
  kept : Store.storedAddress (flash (node.run events).commands) =
    Execution.keptAddress (Store.storedAddress (flash node.commands)) (node.executions events)
  /-- What is asked next is asked under the live address. -/
  asked : ∀ execution, (node.run events).due? = some execution →
    execution.request.header.targets (node.run events).address = true
  /-- A new address is answered with zero, or it is refused because the store is full and changes
  nothing. -/
  told : ∀ execution ∈ node.executions events, ∀ address,
    execution.request.header.command = .setAddress → execution.request.payload = .address address →
      if Store.wordSpan ≤ Store.standard.left (flash execution.commands) then
        execution.answer = [0]
      else
        execution.answer = [0xFE] ∧ flash execution.after = flash execution.commands ∧
          execution.ended.address = execution.session.address

/-- A node whose flash has no defects and holds a well-formed store, after some executions. -/
structure Settled (flash : C → Flash) (initial stored : UInt8) (node : Node C)
    (executions : List (Execution C)) : Prop where
  sound : (flash node.commands).Sound
  formed : Store.standard.WellFormed (flash node.commands)
  live : node.address = Execution.liveAddress initial executions
  kept : Store.storedAddress (flash node.commands) = Execution.keptAddress stored executions

variable [SteadyCommandSet C] {flash : C → Flash} {initial stored : UInt8}

/-- One event leaves the node settled, with what it executed added. -/
theorem Settled.step (hConfigures : ∀ execution : Execution C,
      Configures execution.request (flash execution.commands) execution.actions
        (flash execution.after))
    {executions : List (Execution C)} (settled : Settled flash initial stored node executions)
    (event : Event) :
    Settled flash initial stored (node.step event) (executions ++ node.executed event) := by
  rcases node.step_cases event with ⟨hNone, kept⟩ | ⟨execution, hOne, hCommands, hLink, _⟩
  · have hSame : (node.step event).commands = node.commands := kept.commands
    have hAddress : (node.step event).address = node.address := kept.address
    rw [hNone, List.append_nil]
    exact ⟨hSame ▸ settled.sound, hSame ▸ settled.formed, hAddress.trans settled.live,
      hSame ▸ settled.kept⟩
  · have hBefore := address_of_due (eq_poll_of_executed hOne).2
    have hAfter : (node.step event).commands = execution.after := by
      rw [commands, hLink]
      rfl
    have hAddress : (node.step event).address = execution.ended.address := by
      rw [address, hLink]
      rfl
    obtain ⟨hSound, hFormed, hLive, hKept⟩ := (hConfigures execution).settles
      (hCommands ▸ settled.sound) (hCommands ▸ settled.formed)
    rw [hOne]
    refine ⟨hAfter ▸ hSound, hAfter ▸ hFormed, ?_, ?_⟩
    · rw [hAddress, hLive, Execution.liveAddress_concat, hBefore, settled.live]
    · rw [hAfter, hKept, Execution.keptAddress_concat, hCommands, settled.kept]

/-- So does every run. -/
theorem Settled.run (hConfigures : ∀ execution : Execution C,
      Configures execution.request (flash execution.commands) execution.actions
        (flash execution.after))
    {executions : List (Execution C)} (settled : Settled flash initial stored node executions)
    (events : List Event) :
    Settled flash initial stored (node.run events) (executions ++ node.executions events) := by
  induction events generalizing node executions with
  | nil => rwa [Node.executions, List.append_nil]
  | cons event rest ih =>
      have hRest := ih (settled.step hConfigures event)
      rwa [List.append_assoc] at hRest

/-- What holds of each execution holds of a whole run. -/
theorem remembers (hConfigures : ∀ execution : Execution C,
      Configures execution.request (flash execution.commands) execution.actions
        (flash execution.after))
    (commands : C) (sound : (flash commands).Sound)
    (formed : Store.standard.WellFormed (flash commands)) (address : UInt8)
    (events : List Event) : Remembers flash (start commands address) events := by
  have begun : Settled flash address (Store.storedAddress (flash commands))
      (start commands address) [] := ⟨sound, formed, rfl, rfl⟩
  have settled := begun.run hConfigures events
  refine ⟨settled.live, settled.kept, fun execution hDue => ?_, ?_⟩
  · exact (sound_of_due (reachable_run (reachable_start commands address) events) hDue).2.2
  · intro execution hMem new hCommand hPayload
    obtain ⟨before, _, _, hDue⟩ := exists_due_of_mem hMem
    have hCommands := (poll_of_due hDue).2.2.1
    have earlier := begun.run hConfigures before
    cases hConfigures execution with
    | @set other _ hOther h =>
        have hSet := Execution.sets (hCommands ▸ earlier.sound) (hCommands ▸ earlier.formed) h
        split at hSet
        case isTrue hRoom =>
          rw [if_pos hRoom]
          exact hSet.1
        case isFalse hFull =>
          rw [if_neg hFull]
          exact ⟨hSet.1, hSet.2.2, hSet.2.1⟩
    | erase hErase _ _ => exact absurd (hCommand.symm.trans hErase) (by decide)
    | other hNone _ _ _ _ => exact absurd hPayload (hNone new hCommand)

end Node

/-- The address of a node persists. On a flash without defects whose store is a well-formed log, a
bootloader or a firmware lives under the address it was given last and said yes to, erased or not,
and after a restart it comes up with the same, or with none if its configuration was erased since.
It says no to an address only where its store is full, and then nothing changes. -/
theorem address_persists (address : UInt8) (events : List Node.Event) :
    (∀ bootloader : Bootloader, bootloader.flash.Sound →
      Store.standard.WellFormed bootloader.flash →
        Node.Remembers Bootloader.flash (Node.start bootloader address) events) ∧
    ∀ firmware : Firmware, firmware.flash.Sound →
      Store.standard.WellFormed firmware.flash →
        Node.Remembers Firmware.flash (Node.start firmware address) events :=
  ⟨fun bootloader sound formed =>
      Node.remembers (fun execution => execution.commands.configures ..) bootloader sound formed
        address events,
    fun firmware sound formed =>
      Node.remembers (fun execution => execution.commands.configures ..) firmware sound formed
        address events⟩

/-- A firmware with a blank store that is told to live under the address 9 does so for good. -/
theorem address_persists_blank :
    let flash : Flash := { bytes := Array.replicate Layout.flashSize 0xFF }
    let firmware := Firmware.start flash {} [] 0 []
    let events : List Node.Event := [6, 0, 5, 124, 9].map .byte ++ [.poll]
    let after := (Node.start firmware 5).run events
    after.address = 9 ∧ Store.storedAddress after.commands.flash = 9 := by
  intro flash firmware events after
  have hSize : flash.bytes.size = Layout.flashSize := Array.size_replicate
  have sound : flash.Sound := ⟨rfl, rfl, rfl⟩
  have blank : flash.Blank Store.standard.start Store.standard.stop := fun i _ hHigh =>
    Array.getElem?_replicate.trans (if_pos (Nat.lt_of_lt_of_le hHigh (by decide)))
  have holds : Store.standard.Holds flash [] Store.standard.start :=
    Store.holds_blank sound (hSize.symm ▸ by decide) (by decide) blank
  have hRoom : Store.wordSpan ≤ Store.standard.left firmware.flash :=
    holds.wordSpan_le_left.mpr (by decide)
  obtain ⟨hLive, hKept, _, hTold⟩ := (address_persists 5 events).2 firmware sound ⟨_, _, holds⟩
  have hFormed : (Incoming.ofRequest 5 .setAddress .address [9] 1 (.address 9)).WellFormed :=
    Incoming.wellFormed_ofRequest nofun rfl (by decide) rfl
  obtain ⟨execution, _, hExecuted, hShown, hRequest, _⟩ :=
    (Node.idle_start firmware 5).shows.executions_request hFormed rfl rfl []
  have hOne : (Node.start firmware 5).executions events = [execution] := hExecuted
  have hCommands : execution.commands = firmware := hShown
  have hCommand : execution.request.header.command = .setAddress := by rw [hRequest]; rfl
  have hPayload : execution.request.payload = .address 9 := by rw [hRequest]; rfl
  have hAnswer := hTold execution (hOne ▸ List.mem_singleton_self execution) 9 hCommand hPayload
  rw [hCommands, if_pos hRoom] at hAnswer
  have hAssigned : execution.assigned? = some 9 := by
    simp only [Execution.assigned?, hCommand, hPayload, hAnswer, if_true]
  have hErases : execution.erases = false := by rw [Execution.erases, hCommand]; rfl
  rw [hOne] at hLive hKept
  refine ⟨hLive.trans ?_, hKept.trans ?_⟩
  · exact (Execution.liveAddress_concat _ [] execution).trans (by rw [hAssigned]; rfl)
  · exact (Execution.keptAddress_concat _ [] execution).trans (by rw [hErases, hAssigned]; rfl)

end Multidrop
