import Multidrop.Node.Scripted
import Multidrop.Proofs.Node.Grammar
import Multidrop.Proofs.Node.Noting

/-!
A framer follows the grammar of packets. What becomes of a packet is told by its bytes and by what
the command set wants done with its header, whatever went over the line before.
-/

namespace Multidrop

namespace Link

open Grammar

variable {C : Type} [CommandSet C]

/-- What the command set wants done with the packet on the line. It is not asked about packets that
are over before their header is, or that are for others. -/
def wanted (link : Link C) (line : Nat → UInt8) : Accept :=
  if 4 ≤ length line ∧ (header line).targets link.address = true then
    (CommandSet.accept link.commands (header line)).1
  else .ignore

/-- The command set once so many bytes of a packet went by. -/
def informed (link : Link C) (line : Nat → UInt8) (count : Nat) : C :=
  if 4 ≤ count ∧ (header line).targets link.address = true then
    (CommandSet.accept link.commands (header line)).2
  else link.commands

/-- The framer after the first bytes on the line. -/
def hear (link : Link C) (line : Nat → UInt8) (count : Nat) : Link C :=
  (front line count).foldl receive link

@[simp] theorem hear_zero (link : Link C) (line : Nat → UInt8) : link.hear line 0 = link :=
  rfl

@[simp] theorem hear_succ (link : Link C) (line : Nat → UInt8) (count : Nat) :
    link.hear line (count + 1) = (link.hear line count).receive (line count) := by
  simp [hear, List.foldl_append]

variable {start link : Link C} {line : Nat → UInt8} {count : Nat}

/-- What hears the line from a reachable state is in a reachable state. -/
theorem Reachable.hear (reachable : link.Reachable) (line : Nat → UInt8) (count : Nat) :
    (link.hear line count).Reachable := by
  induction count with
  | zero => exact reachable
  | succ count ih =>
      rw [hear_succ]
      exact .receive ih (line count)

/-- A payload that is wanted lies behind the header and within the declared length. -/
theorem bounds_of_wanted {size : Nat}
    (h : completion? (length line) (start.wanted line) = some size) :
    4 ≤ size ∧ size ≤ length line := by
  unfold wanted at h
  split at h
  · next hAsked => exact bounds_of_completion hAsked.1 h
  · cases h

/-- The commands decide which payload of a packet for the node is wanted. -/
theorem wanted_of_asked (hFits : 4 ≤ length line)
    (hTargets : (header line).targets start.address = true) :
    start.wanted line = (CommandSet.accept start.commands (header line)).1 :=
  if_pos ⟨hFits, hTargets⟩

/-- Of a packet for others none is wanted. -/
theorem wanted_of_others (hOthers : ¬ (header line).targets start.address = true) :
    start.wanted line = .ignore :=
  if_neg fun hAsked => hOthers hAsked.2

/-- The commands are told of the header of a packet for the node. -/
theorem informed_of_asked (hHeader : 4 ≤ count)
    (hTargets : (header line).targets start.address = true) :
    start.informed line count = (CommandSet.accept start.commands (header line)).2 :=
  if_pos ⟨hHeader, hTargets⟩

/-- They are not told of a packet for others. -/
theorem informed_of_others (hOthers : ¬ (header line).targets start.address = true) :
    start.informed line count = start.commands :=
  if_neg fun hAsked => hOthers hAsked.2

/-- They are told of nothing before the header is complete. -/
theorem informed_of_opening (hOpening : count < 4) : start.informed line count = start.commands :=
  if_neg fun hAsked => absurd hAsked.1 (Nat.not_le_of_lt hOpening)

/-- After its header a packet does not concern the command set until it is a request. -/
theorem informed_succ (hHeader : 4 ≤ count) :
    start.informed line (count + 1) = start.informed line count := by
  have hNext : 4 ≤ count + 1 := Nat.le_succ_of_le hHeader
  simp only [informed, hHeader, hNext]

/-- A command set that stays as it is when it is asked learns nothing from a packet. -/
theorem informed_of_steady [SteadyCommandSet C] : start.informed line count = start.commands := by
  unfold informed
  split
  · exact SteadyCommandSet.accept_commands ..
  · rfl

/-- A framer that took so many bytes of a packet and was between packets at the start. It said
nothing since then. -/
structure Follows (start link : Link C) (line : Nat → UInt8) (count : Nat) (packet : Packet) :
    Prop where
  commands : link.commands = start.informed line count
  address : link.address = start.address
  packet : link.packet = packet
  written : link.trace.written = start.trace.written

/-- The header is complete, and the command set is asked about a packet for the node. -/
theorem Follows.openPacket {packet : Packet} (hFits : 4 ≤ length line)
    (follows : Follows start link line 3 packet) :
    Follows start (link.openPacket (header line)) line 4
      (if completion? (length line) (start.wanted line) = some 4
        then .ready ⟨header line, payload line (start.wanted line)⟩ 4
        else underway line (start.wanted line) 4) := by
  have hCommands : link.commands = start.commands :=
    follows.commands.trans (informed_of_opening (by decide))
  unfold Link.openPacket
  rw [follows.address, hCommands]
  by_cases hTargets : (header line).targets start.address = true
  · have hInformed := informed_of_asked (Nat.le_refl 4) hTargets
    rw [if_pos hTargets, wanted_of_asked hFits hTargets]
    rcases hAccept : CommandSet.accept start.commands (header line) with ⟨choice, commands⟩
    rw [hAccept] at hInformed
    cases choice with
    | ignore => exact ⟨hInformed.symm, rfl, rfl, follows.written⟩
    | execute => exact ⟨hInformed.symm, rfl, rfl, follows.written⟩
    | collect kind =>
        have hLater : completion? (length line) (.collect kind) ≠ some 4 := by
          intro hNow
          exact absurd (bounds_of_collect hNow).1 (Nat.lt_irrefl 4)
        have hFresh : Packet.passing (header line) Header.size (some (.fresh kind)) =
            underway line (.collect kind) 4 := by
          simp [underway, collecting?, collector, Collector.fresh, Header.size]
        rw [if_neg hLater]
        exact ⟨hInformed.symm, rfl, hFresh, follows.written⟩
  · rw [if_neg hTargets, wanted_of_others hTargets]
    exact ⟨(informed_of_others hTargets).symm, rfl, rfl, follows.written⟩

/-- One byte more of a packet that is neither a request nor over. -/
theorem Follows.counted (hMore : count < max 2 (length line))
    (hWaiting : ∀ size, completion? (length line) (start.wanted line) = some size → count < size)
    (follows : Follows start link line count (underway line (start.wanted line) count)) :
    Follows start (link.count (line count)) line (count + 1)
      (if completion? (length line) (start.wanted line) = some (count + 1)
        then .ready ⟨header line, payload line (start.wanted line)⟩ (count + 1)
        else underway line (start.wanted line) (count + 1)) := by
  have hPacket := follows.packet
  rcases Nat.lt_trichotomy (count + 1) 4 with hOpening | hHeader | hPassing
  · -- The header is not complete yet.
    have hLater : completion? (length line) (start.wanted line) ≠ some (count + 1) := by
      intro hNow
      exact absurd (bounds_of_wanted hNow).1 (Nat.not_le_of_lt hOpening)
    have hSame : start.informed line (count + 1) = start.informed line count := by
      rw [informed_of_opening hOpening, informed_of_opening (Nat.lt_of_succ_lt hOpening)]
    rw [underway_opening (Nat.lt_of_succ_lt hOpening)] at hPacket
    rw [if_neg hLater, underway_opening hOpening, Link.count, hPacket]
    dsimp only
    rw [if_pos (by simpa [Header.size] using hOpening), ← front_succ]
    exact ⟨follows.commands.trans hSame.symm, follows.address, rfl, follows.written⟩
  · -- The byte completes the header.
    obtain rfl : count = 3 := by omega
    have hFits : 4 ≤ length line := by omega
    rw [underway_opening (by decide)] at hPacket
    rw [Link.count, hPacket]
    dsimp only
    rw [if_neg (by simp [Header.size]), ← front_succ, ofWire_front]
    exact follows.openPacket hFits
  · -- The byte belongs to the payload, if one is wanted.
    have hHeader : 4 ≤ count := Nat.le_of_lt_succ hPassing
    have hFits : count + 1 ≤ length line := by omega
    have hCommands := follows.commands.trans (informed_succ hHeader).symm
    rw [underway_passing hHeader] at hPacket
    rw [underway_passing (Nat.le_of_lt hPassing), Link.count, hPacket]
    generalize start.wanted line = wanted at hWaiting ⊢
    cases wanted with
    | ignore =>
        rw [if_neg (by simp [completion?])]
        exact ⟨hCommands, follows.address, rfl, follows.written⟩
    | execute => exact absurd (hWaiting 4 rfl) (Nat.not_lt_of_le hHeader)
    | collect kind =>
        dsimp only [collecting?]
        rw [feed_collector hHeader hFits hWaiting]
        by_cases hLast : completion? (length line) (.collect kind) = some (count + 1)
        · simp only [hLast, if_true]
          exact ⟨hCommands, follows.address, rfl, follows.written⟩
        · simp only [hLast, if_false]
          exact ⟨hCommands, follows.address, rfl, follows.written⟩

/-- To restart the timer is not to lose track of the packet. -/
theorem Follows.restartTimer {packet : Packet} (follows : Follows start link line count packet) :
    Follows start (link.call .restartTimer) line count packet :=
  ⟨follows.commands, follows.address, follows.packet,
    (kept_restartTimer link).written.trans follows.written⟩

/-- A request that is ready is not taken away. -/
theorem Follows.settled {size : Nat} {request : Request}
    (follows : Follows start link line count (.ready request size)) :
    Follows start link.settle line count (.ready request size) := by
  have kept := kept_settle link
  rw [settle, follows.packet, Packet.isReady, if_pos rfl] at kept ⊢
  exact ⟨follows.commands, follows.address, follows.packet, kept.written.trans follows.written⟩

/-- A packet that is over is followed by the next one. -/
theorem Follows.closed (hOver : max 2 (length line) ≤ count)
    (follows : Follows start link line count (underway line (start.wanted line) count)) :
    Follows start link.settle line count .idle := by
  rw [settle, follows.packet, isReady_underway, isOver_underway, decide_eq_true hOver]
  exact ⟨follows.commands, follows.address, rfl,
    (kept_endPacket link).written.trans follows.written⟩

/-- A packet that has not reached its length stays open. -/
theorem Follows.open (hMore : count < max 2 (length line))
    (follows : Follows start link line count (underway line (start.wanted line) count)) :
    Follows start link.settle line count (underway line (start.wanted line) count) := by
  rw [settle, follows.packet, isReady_underway, isOver_underway,
    decide_eq_false (Nat.not_le_of_lt hMore)]
  exact follows

/-- Each byte of a packet takes the framer one step further. -/
theorem Follows.receive (hMore : count < max 2 (length line))
    (follows : Follows start link line count (progress line (start.wanted line) count)) :
    Follows start (link.receive (line count)) line (count + 1)
      (progress line (start.wanted line) (count + 1)) := by
  by_cases hWaiting :
      ∀ size, completion? (length line) (start.wanted line) = some size → count < size
  · rw [progress_waiting hWaiting hMore] at follows
    have counted := follows.restartTimer.counted hMore hWaiting
    rw [Link.receive, follows.packet, isReady_underway, if_neg Bool.false_ne_true]
    by_cases hLast : completion? (length line) (start.wanted line) = some (count + 1)
    · rw [if_pos hLast] at counted
      rw [progress_ready hLast (Nat.le_refl _)]
      exact counted.settled
    · have hLater := later_of_ne hWaiting hLast
      rw [if_neg hLast] at counted
      by_cases hOver : max 2 (length line) ≤ count + 1
      · have hNever : completion? (length line) (start.wanted line) = none := by
          apply Option.eq_none_iff_forall_not_mem.mpr
          intro size hSize
          have hAfter := hLater size hSize
          have hWithin := (bounds_of_wanted hSize).2
          omega
        rw [progress_over hNever hOver]
        exact counted.closed hOver
      · rw [progress_waiting hLater (Nat.lt_of_not_le hOver)]
        exact counted.open (Nat.lt_of_not_le hOver)
  · -- The request is ready, and the framer does not look at the byte.
    obtain ⟨size, hSize, hReady⟩ : ∃ size,
        completion? (length line) (start.wanted line) = some size ∧ size ≤ count := by
      simpa using hWaiting
    rw [progress_ready hSize hReady] at follows
    rw [progress_ready hSize (Nat.le_succ_of_le hReady), Link.receive, follows.packet,
      Packet.isReady, if_pos rfl]
    have hHeader := Nat.le_trans (bounds_of_wanted hSize).1 hReady
    exact ⟨follows.commands.trans (informed_succ hHeader).symm, follows.address, follows.packet,
      follows.written⟩

/-- Before its first byte a packet is nothing. -/
theorem progress_zero : progress line (start.wanted line) 0 = .idle := by
  have hWaiting : ∀ size, completion? (length line) (start.wanted line) = some size → 0 < size := by
    intro size hSize
    have hHeader := (bounds_of_wanted hSize).1
    omega
  rw [progress_waiting hWaiting (by omega)]
  rfl

/-- What a framer makes of a packet follows from the bytes of the packet. -/
theorem follows_hear (hIdle : link.packet = .idle) (hCount : count ≤ max 2 (length line)) :
    Follows link (link.hear line count) line count (progress line (link.wanted line) count) := by
  induction count with
  | zero =>
      rw [progress_zero]
      exact ⟨(informed_of_opening (by decide)).symm, rfl, hIdle, rfl⟩
  | succ count ih =>
      rw [hear_succ]
      exact (ih (Nat.le_of_succ_le hCount)).receive hCount

/-- The first bytes on the line are counted, and no request becomes ready. -/
def Counts (link : Link C) (line : Nat → UInt8) (size : Nat) : Prop :=
  ∀ count < size, (link.hear line count).position = count ∧
    (link.hear line count).packet.isReady = false

/-- A request becomes ready with the last of so many bytes. -/
structure Readies (link : Link C) (line : Nat → UInt8) (request : Request) (size : Nat) : Prop where
  counts : link.Counts line size
  ready : (link.hear line size).packet = .ready request size

/-- A packet is over with the last of so many bytes. -/
structure Closes (link : Link C) (line : Nat → UInt8) (size : Nat) : Prop where
  counts : link.Counts line size
  position : (link.hear line size).position = 0
  waiting : (link.hear line size).packet.isReady = false

/-- The link counts up to the byte that completes the payload, or that the packet ends with. -/
theorem counts_of_waiting {size : Nat} (hIdle : link.packet = .idle)
    (hSize : size ≤ max 2 (length line))
    (h : ∀ last, completion? (length line) (link.wanted line) = some last → size ≤ last) :
    link.Counts line size := by
  intro count hBefore
  have hMore := Nat.lt_of_lt_of_le hBefore hSize
  have hWaiting : ∀ last, completion? (length line) (link.wanted line) = some last →
      count < last := fun last hLast => Nat.lt_of_lt_of_le hBefore (h last hLast)
  have follows := follows_hear hIdle (Nat.le_of_lt hMore)
  rw [progress_waiting hWaiting hMore] at follows
  rw [position, follows.packet]
  exact ⟨position_underway, isReady_underway⟩

/-- The byte that completes the wanted payload makes the request ready. -/
theorem readies_of_completion {size : Nat} (hIdle : link.packet = .idle)
    (h : completion? (length line) (link.wanted line) = some size) :
    link.Readies line ⟨header line, payload line (link.wanted line)⟩ size := by
  have hWithin : size ≤ max 2 (length line) := by
    have hLength := (bounds_of_wanted h).2
    omega
  have follows := follows_hear hIdle hWithin
  rw [progress_ready h (Nat.le_refl size)] at follows
  refine ⟨counts_of_waiting hIdle hWithin ?_, follows.packet⟩
  intro last hLast
  rw [h] at hLast
  cases hLast
  exact Nat.le_refl size

/-- Where no payload is completed, the packet closes at its length. -/
theorem closes_of_completion (hIdle : link.packet = .idle)
    (h : completion? (length line) (link.wanted line) = none) :
    link.Closes line (max 2 (length line)) := by
  have follows := follows_hear hIdle (Nat.le_refl (max 2 (length line)))
  rw [progress_over h (Nat.le_refl _)] at follows
  refine ⟨counts_of_waiting hIdle (Nat.le_refl _) ?_, ?_, ?_⟩
  · intro last hLast
    rw [h] at hLast
    cases hLast
  · rw [position, follows.packet]
    rfl
  · rw [follows.packet]
    rfl

/-- A packet is one request at most. -/
theorem Readies.unique {first second : Request} {before after : Nat}
    (left : link.Readies line first before) (right : link.Readies line second after) :
    first = second ∧ before = after := by
  have hReady : ∀ {request size}, link.Readies line request size →
      (link.hear line size).packet.isReady = true := by
    intro request size readies
    rw [readies.ready]
    rfl
  rcases Nat.lt_trichotomy before after with hBefore | rfl | hAfter
  · have hNot := (right.counts before hBefore).2
    rw [hReady left] at hNot
    cases hNot
  · have hSame := left.ready.symm.trans right.ready
    cases hSame
    exact ⟨rfl, rfl⟩
  · have hNot := (left.counts after hAfter).2
    rw [hReady right] at hNot
    cases hNot

/-- A packet that is a request is not over without being executed. -/
theorem Closes.not_readies {size last : Nat} {request : Request} (hSome : 0 < size)
    (closes : link.Closes line size) : ¬ link.Readies line request last := by
  intro readies
  rcases Nat.lt_trichotomy last size with hBefore | rfl | hAfter
  · have hNot := (closes.counts last hBefore).2
    rw [readies.ready] at hNot
    cases hNot
  · have hNot := closes.waiting
    rw [readies.ready] at hNot
    cases hNot
  · have hCounted := (readies.counts size hAfter).1
    rw [closes.position] at hCounted
    omega

/-- A packet is for a node when it carries its address, or that of all. -/
theorem targets_header (line : Nat → UInt8) (address : UInt8) :
    (header line).targets address = true ↔ line 2 = address ∨ line 2 = broadcast := by
  simp [Header.targets, header, or_comm]

/-- What is completed was asked for. -/
theorem completion_wanted {line : Nat → UInt8} {size : Nat} :
    completion? (length line) (link.wanted line) = some size ↔
      4 ≤ length line ∧ (line 2 = link.address ∨ line 2 = broadcast) ∧
        completion? (length line) (CommandSet.accept link.commands (header line)).1 =
          some size := by
  rw [← targets_header, wanted]
  split
  · next hAsked => simp [hAsked]
  · next hNot =>
      constructor
      · intro hNever
        cases hNever
      · rintro ⟨hFits, hTargets, _⟩
        exact absurd ⟨hFits, hTargets⟩ hNot

/-- Whoever is asked about a packet is asked when its header is complete, and once. -/
theorem commands_hear (hIdle : link.packet = .idle) {line : Nat → UInt8} {count : Nat}
    (hCount : count ≤ max 2 (length line)) :
    (link.hear line count).commands =
      if 4 ≤ count ∧ (line 2 = link.address ∨ line 2 = broadcast) then
        (CommandSet.accept link.commands (header line)).2
      else link.commands := by
  rw [(follows_hear hIdle hCount).commands, informed]
  simp only [targets_header]

/-- A packet that arrives at a framer between packets is a request once its payload is complete, if
it is for the node and the command set wants it; any other packet is over once as many bytes came as
it declares, and after two at the earliest. The command set is asked about the packets for the node
alone, once, when their header is complete. -/
theorem packet_grammar (reachable : link.Reachable) (hFree : link.position = 0)
    (line : Nat → UInt8) :
    (∀ request size, link.Readies line request size ↔
      4 ≤ length line ∧ (line 2 = link.address ∨ line 2 = broadcast) ∧
        completion? (length line) (CommandSet.accept link.commands (header line)).1 = some size ∧
        request = ⟨header line, payload line (CommandSet.accept link.commands (header line)).1⟩) ∧
    ((¬ ∃ request size, link.Readies line request size) →
      link.Closes line (max 2 (length line))) ∧
    (∀ count ≤ max 2 (length line), (link.hear line count).commands =
      if 4 ≤ count ∧ (line 2 = link.address ∨ line 2 = broadcast) then
        (CommandSet.accept link.commands (header line)).2
      else link.commands) ∧
    ∀ count ≤ max 2 (length line),
      ((link.mapCommands Noting.fresh).hear line count).commands.asked =
        if 4 ≤ count ∧ (line 2 = link.address ∨ line 2 = broadcast) then [header line] else [] := by
  have hIdle : link.packet = .idle := reachable.eq_idle hFree
  refine ⟨?_, ?_, fun _ hCount => commands_hear hIdle hCount, ?_⟩
  · intro request size
    constructor
    · intro readies
      cases hCompletion : completion? (length line) (link.wanted line) with
      | none =>
          have closes := closes_of_completion hIdle hCompletion
          exact absurd readies (closes.not_readies (by omega))
      | some last =>
          obtain ⟨rfl, rfl⟩ := readies.unique (readies_of_completion hIdle hCompletion)
          obtain ⟨hFits, hTargets, hComplete⟩ := completion_wanted.mp hCompletion
          have hWanted := wanted_of_asked hFits ((targets_header ..).mpr hTargets)
          exact ⟨hFits, hTargets, hComplete, by rw [hWanted]⟩
    · rintro ⟨hFits, hTargets, hComplete, rfl⟩
      have hWanted := wanted_of_asked hFits ((targets_header ..).mpr hTargets)
      have readies := readies_of_completion hIdle
        (completion_wanted.mpr ⟨hFits, hTargets, hComplete⟩)
      rwa [hWanted] at readies
  · intro hNever
    apply closes_of_completion hIdle
    apply Option.eq_none_iff_forall_not_mem.mpr
    intro size hSize
    exact hNever ⟨_, size, readies_of_completion hIdle hSize⟩
  · intro count hCount
    have hNoted : (link.mapCommands Noting.fresh).packet = .idle := hIdle
    rw [commands_hear hNoted hCount]
    exact apply_ite Noting.asked ..

/-- After a packet for node 7 has gone by, node 5 takes three output values from channel 2 on. -/
theorem readies_leds :
    let commands : Scripted :=
      ⟨⟨#[], [], [], [], #[]⟩, {}, [(.ledSet8, .collect (.leds false))], [], #[]⟩
    let link := (Link.idle commands 5).hear (lineOf [5, 0, 7, 1, 1]) 5
    link.Reachable ∧ link.position = 0 ∧
      link.Readies (lineOf [9, 0, 5, 12, 2, 0, 10, 20, 30])
        ⟨⟨9, 5, .ledSet8⟩, .leds ⟨2, false, [10, 20, 30]⟩⟩ 9 := by
  intro commands link
  have hReachable : link.Reachable := .hear (.idle commands 5) _ 5
  have hFree : link.position = 0 := by decide
  refine ⟨hReachable, hFree, ?_⟩
  apply ((packet_grammar hReachable hFree _).1 _ _).mpr
  decide

end Link

end Multidrop
