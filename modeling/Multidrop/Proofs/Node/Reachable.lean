import Multidrop.Proofs.Node.Event
import Multidrop.Proofs.Packed

/-!
What a framer can be in the middle of. Whatever traffic came before, the packet on the line is not
over yet, its payload is wanted only if it is for the node, and a request is ready no later than its
packet ends.
-/

namespace Multidrop

/-- The length that a header declares is the number in its first two bytes. -/
theorem length_ofWire (bytes : List UInt8) :
    (ofWire bytes : Header).length.toNat = ofDigits (bytes.take 2) := by
  have hLength : (bytes.take 2).length ≤ 2 := List.length_take_le ..
  have hPower : Nat.pow 256 (bytes.take 2).length ≤ Nat.pow 256 2 :=
    Nat.pow_le_pow_right (by decide) hLength
  have hSmall : ofDigits (bytes.take 2) < 65536 :=
    Nat.lt_of_lt_of_le (ofDigits_lt (bytes.take 2)) hPower
  change (UInt16.ofNat (ofDigits (bytes.take 2))).toNat = ofDigits (bytes.take 2)
  rw [UInt16.toNat_ofNat', Nat.mod_eq_of_lt hSmall]

namespace Packet

/-- A packet with an incomplete header is over when its length has come in and is reached. -/
theorem isOver_opening (bytes : List UInt8) :
    (opening bytes).isOver =
      decide (2 ≤ bytes.length ∧ ofDigits (bytes.take 2) ≤ bytes.length) := by
  unfold isOver declared?
  by_cases hKnown : 2 ≤ bytes.length
  · simp only [hKnown, if_true, true_and]
    rfl
  · simp only [hKnown, if_false, false_and, decide_false]

/-- Behind the header a packet is over at its declared length. -/
theorem isOver_passing (header : Header) (position : Nat) (collector : Option Collector) :
    (passing header position collector).isOver = decide (header.length.toNat ≤ position) :=
  rfl

/-- What is true of the packet on the line of a node with this address. -/
inductive Sound (address : UInt8) : Packet → Prop where
  | opening {bytes : List UInt8} (short : bytes.length < Header.size)
      (more : 2 ≤ bytes.length → bytes.length < ofDigits (bytes.take 2)) :
      Sound address (.opening bytes)
  | passing {header : Header} {position : Nat} {collector : Option Collector}
      (started : Header.size ≤ position) (more : position < header.length.toNat)
      (wanted : collector.isSome = true → header.targets address = true) :
      Sound address (.passing header position collector)
  | ready {request : Request} {position : Nat} (started : Header.size ≤ position)
      (within : position ≤ request.header.length.toNat)
      (wanted : request.header.targets address = true) :
      Sound address (.ready request position)

theorem sound_idle (address : UInt8) : Sound address idle :=
  .opening (by decide) (by simp)

/-- Between packets nothing was counted, and otherwise something was. -/
theorem Sound.eq_idle {address : UInt8} {packet : Packet} (sound : packet.Sound address)
    (h : packet.position = 0) : packet = idle := by
  cases sound with
  | opening short more => rw [idle, List.eq_nil_of_length_eq_zero h]
  | passing started more wanted =>
      rw [Packet.position] at h
      simp [h, Header.size] at started
  | ready started within wanted =>
      rw [Packet.position] at h
      simp [h, Header.size] at started

end Packet

namespace Link

variable {C : Type} {link : Link C}

/-- What follows a byte leaves a sound packet if the byte did, or if the byte was the last one. -/
theorem sound_settle
    (h : link.packet.isReady = true ∨ link.packet.isOver = false → link.packet.Sound link.address) :
    link.settle.packet.Sound link.settle.address := by
  unfold settle
  split
  · next hReady => exact h (.inl hReady)
  · split
    · exact Packet.sound_idle link.address
    · next hMore => exact h (.inr (by simpa using hMore))

/-- A timeout leaves the packet sound. -/
theorem sound_timeout (sound : link.packet.Sound link.address) :
    link.timeout.packet.Sound link.timeout.address := by
  unfold timeout
  split
  · exact sound
  · exact Packet.sound_idle link.address

variable [CommandSet C]

@[simp] theorem address_openPacket (link : Link C) (header : Header) :
    (link.openPacket header).address = link.address := by
  unfold openPacket
  split
  · split <;> rfl
  · rfl

@[simp] theorem address_count (link : Link C) (byte : UInt8) :
    (link.count byte).address = link.address := by
  unfold count
  split
  · dsimp only
    split
    · rfl
    · exact address_openPacket link _
  · rfl
  · split <;> rfl
  · rfl

/-- A packet that only goes by is sound as long as it is not over. -/
theorem sound_passing {address : UInt8} {header : Header} {position : Nat}
    {collector : Option Collector} (started : Header.size ≤ position)
    (wanted : collector.isSome = true → header.targets address = true)
    (hMore : (Packet.passing header position collector).isReady = true ∨
      (Packet.passing header position collector).isOver = false) :
    Packet.Sound address (.passing header position collector) := by
  refine .passing started ?_ wanted
  have hOver : (Packet.passing header position collector).isOver = false :=
    hMore.resolve_left (by simp [Packet.isReady])
  rw [Packet.isOver_passing, decide_eq_false_iff_not] at hOver
  exact Nat.lt_of_not_le hOver

/-- A header leaves the packet sound, unless it is over with it. -/
theorem sound_openPacket (header : Header) (hFits : Header.size ≤ header.length.toNat)
    (hMore : (link.openPacket header).packet.isReady = true ∨
      (link.openPacket header).packet.isOver = false) :
    (link.openPacket header).packet.Sound link.address := by
  unfold openPacket at hMore ⊢
  by_cases hTargets : header.targets link.address = true
  · rw [if_pos hTargets] at hMore ⊢
    rcases hAccept : CommandSet.accept link.commands header with ⟨choice, commands⟩
    rw [hAccept] at hMore
    cases choice with
    | ignore => exact sound_passing (Nat.le_refl _) (by simp) hMore
    | execute => exact .ready (Nat.le_refl _) hFits hTargets
    | collect kind => exact sound_passing (Nat.le_refl _) (fun _ => hTargets) hMore
  · rw [if_neg hTargets] at hMore ⊢
    exact sound_passing (Nat.le_refl _) (by simp) hMore

/-- One byte more leaves a sound packet, if it was not the last one. -/
theorem sound_count (sound : link.packet.Sound link.address) (byte : UInt8)
    (hMore : (link.count byte).packet.isReady = true ∨ (link.count byte).packet.isOver = false) :
    (link.count byte).packet.Sound link.address := by
  obtain ⟨commands, address, packet, trace⟩ := link
  unfold count at hMore ⊢
  cases sound with
  | @opening bytes short more =>
      dsimp only at hMore ⊢
      have hLength : (bytes ++ [byte]).length = bytes.length + 1 := by simp
      by_cases hOpening : (bytes ++ [byte]).length < Header.size
      · rw [if_pos hOpening] at hMore ⊢
        have hOver := hMore.resolve_left (by simp [Packet.isReady])
        rw [Packet.isOver_opening, decide_eq_false_iff_not] at hOver
        exact .opening hOpening fun hKnown => Nat.lt_of_not_le fun hEnd => hOver ⟨hKnown, hEnd⟩
      · -- The header is complete, and its first two bytes told that there would be four.
        rw [if_neg hOpening] at hMore ⊢
        have hThree : bytes.length = 3 := by
          simp only [Header.size] at short hOpening
          omega
        have hDeclared := more (by omega)
        have hFront : (bytes ++ [byte]).take 2 = bytes.take 2 :=
          List.take_append_of_le_length (by omega)
        refine sound_openPacket _ ?_ hMore
        rw [length_ofWire, hFront, Header.size]
        omega
  | @passing header position collector started more wanted =>
      cases collector with
      | none => exact sound_passing (Nat.le_succ_of_le started) (by simp) hMore
      | some collector =>
          dsimp only at hMore ⊢
          rcases hFed : collector.feed byte (position + 1) header with ⟨grown, payload⟩
          rw [hFed] at hMore
          cases payload with
          | none => exact sound_passing (Nat.le_succ_of_le started) (fun _ => wanted rfl) hMore
          | some payload => exact .ready (Nat.le_succ_of_le started) more (wanted rfl)
  | ready started within wanted => exact .ready started within wanted

/-- A byte leaves the packet sound. -/
theorem sound_receive (sound : link.packet.Sound link.address) (byte : UInt8) :
    (link.receive byte).packet.Sound (link.receive byte).address := by
  unfold receive
  split
  · exact sound
  · have hTimed : (link.call .restartTimer).packet.Sound (link.call .restartTimer).address := sound
    apply sound_settle
    intro hMore
    rw [address_count]
    exact sound_count hTimed byte hMore

/-- An execution leaves it sound. -/
theorem sound_execute (sound : link.packet.Sound link.address) :
    link.execute.2.packet.Sound link.execute.2.address := by
  obtain ⟨commands, address, packet, trace⟩ := link
  cases packet with
  | ready request position => exact Packet.sound_idle _
  | opening bytes => exact sound
  | passing header position collector => exact sound

/-- The framers that traffic leads to, whatever else is done to them. -/
inductive Reachable : Link C → Prop where
  | idle (commands : C) (address : UInt8) : Reachable (.idle commands address)
  | receive {link : Link C} (before : Reachable link) (byte : UInt8) :
      Reachable (link.receive byte)
  | timeout {link : Link C} (before : Reachable link) : Reachable link.timeout
  | execute {link : Link C} (before : Reachable link) : Reachable link.execute.2
  | release {link : Link C} (before : Reachable link) : Reachable link.release
  | takeTrace {link : Link C} (before : Reachable link) : Reachable link.takeTrace.2
  | mapCommands {link : Link C} (before : Reachable link) (change : C → C) :
      Reachable (link.mapCommands change)

/-- Whatever was heard, the packet is sound. -/
theorem Reachable.sound (reachable : link.Reachable) : link.packet.Sound link.address := by
  induction reachable with
  | idle commands address => exact Packet.sound_idle address
  | receive before byte ih => exact sound_receive ih byte
  | timeout before ih => exact sound_timeout ih
  | execute before ih => exact sound_execute ih
  | release before ih => exact Packet.sound_idle _
  | takeTrace before ih => exact ih
  | mapCommands before change ih => exact ih

/-- A framer that counted nothing is between packets. -/
theorem Reachable.eq_idle (reachable : link.Reachable) (h : link.position = 0) :
    link.packet = .idle :=
  reachable.sound.eq_idle h

end Link

namespace Node

variable {C : Type} [CommandSet C] {node : Node C}

theorem reachable_catchUp (reachable : node.link.value.Reachable) :
    node.catchUp.link.value.Reachable := by
  unfold catchUp
  split
  · exact .timeout reachable
  · exact reachable

theorem reachable_receive (reachable : node.link.value.Reachable) (byte : UInt8) :
    (node.receive byte).link.value.Reachable := by
  cases hHeld : node.link.held with
  | true =>
      rw [receive_of_held hHeld]
      exact reachable
  | false =>
      rw [receive_of_unlocked hHeld]
      exact .receive (reachable_catchUp reachable) byte

theorem reachable_poll (reachable : node.link.value.Reachable) :
    node.poll.2.link.value.Reachable := by
  have hCaught := reachable_catchUp reachable
  cases hHeld : node.link.held with
  | true =>
      rw [poll_of_held hHeld]
      exact reachable
  | false =>
      rw [poll_of_unlocked hHeld]
      split
      · exact .execute hCaught
      · exact hCaught

theorem reachable_step (reachable : node.link.value.Reachable) (event : Event) :
    (node.step event).link.value.Reachable := by
  cases event with
  | byte byte => exact reachable_receive reachable byte
  | silence =>
      rw [step]
      cases hHeld : node.link.held with
      | true =>
          rw [timeout_of_held hHeld]
          exact reachable
      | false =>
          rw [timeout_of_unlocked hHeld]
          exact .timeout reachable
  | poll => exact reachable_poll reachable
  | lock =>
      rw [step]
      cases hHeld : node.link.held with
      | true =>
          rw [lock_of_held hHeld]
          exact reachable
      | false =>
          rw [lock_of_unlocked hHeld]
          exact reachable_catchUp reachable
  | unlock => exact reachable

/-- The framer of a node is reachable however the node came to where it is. -/
theorem reachable_run (reachable : node.link.value.Reachable) (events : List Event) :
    (node.run events).link.value.Reachable := by
  induction events generalizing node with
  | nil => exact reachable
  | cons event rest ih => exact ih (reachable_step reachable event)

theorem reachable_start (commands : C) (address : UInt8) :
    (start commands address).link.value.Reachable :=
  .idle commands address

/-- A request is executed while it is for the node, and before more bytes came than it declares. -/
theorem sound_of_due {execution : Execution C} (reachable : node.link.value.Reachable)
    (h : node.due? = some execution) :
    execution.session.header = execution.request.header ∧
      execution.session.position ≤ execution.request.header.length.toNat ∧
      execution.request.header.targets node.address = true := by
  have hSound := (reachable_catchUp reachable).sound
  have hAddress : node.catchUp.link.value.address = node.address := (kept_catchUp node).address
  unfold due? at h
  split at h
  case isTrue hHeld => cases h
  case isFalse hHeld =>
      generalize node.catchUp = caught at h hSound hAddress
      obtain ⟨⟨⟨commands, address, packet, trace⟩, held⟩, ready, expired⟩ := caught
      dsimp only at hSound hAddress
      subst hAddress
      cases hSound with
      | opening short more => cases h
      | passing started more wanted => cases h
      | ready started within wanted =>
          cases ready with
          | false => cases h
          | true =>
              cases h
              exact ⟨rfl, within, wanted⟩

/-- What is executed in a run is due at a poll of the run. -/
theorem exists_due_of_mem {events : List Event} {execution : Execution C}
    (h : execution ∈ node.executions events) :
    ∃ before after, events = before ++ .poll :: after ∧
      (node.run before).due? = some execution := by
  induction events generalizing node with
  | nil => cases h
  | cons event rest ih =>
      rw [executions, List.mem_append] at h
      rcases h with hNow | hLater
      · cases event with
        | poll =>
            rw [executed, Option.mem_toList] at hNow
            exact ⟨[], rest, rfl, hNow⟩
        | byte byte => cases hNow
        | silence => cases hNow
        | lock => cases hNow
        | unlock => cases hNow
      · obtain ⟨before, after, hSplit, hDue⟩ := ih hLater
        exact ⟨event :: before, after, by rw [hSplit, List.cons_append], hDue⟩

/-- What is executed fits the header of its request and starts within the declared length. -/
theorem sound_of_mem {commands : C} {address : UInt8} {events : List Event}
    {execution : Execution C} (h : execution ∈ (start commands address).executions events) :
    execution.session.header = execution.request.header ∧
      execution.session.position ≤ execution.request.header.length.toNat := by
  obtain ⟨before, after, _, hDue⟩ := exists_due_of_mem h
  obtain ⟨hHeader, hWithin, _⟩ :=
    sound_of_due (reachable_run (reachable_start commands address) before) hDue
  exact ⟨hHeader, hWithin⟩

end Node

end Multidrop
