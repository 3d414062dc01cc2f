import Multidrop.Proofs.Node.Reachable
import Multidrop.Proofs.Strict.Collector
import Multidrop.Proofs.Strict.Command

/-!
The framer in strict operations. It keeps what it knows of a packet side by side: a count, four
bytes of which some may be left over from the packet before, a header that is read from them, and
what waits or is collected. Whatever comes, that is a packet which is not over yet, so the count
stays below the length that the packet declares and no index is taken from it after the header.
-/

namespace Multidrop

/-- A framer that keeps the parts of its packet side by side. -/
structure Framer (C : Type) where
  commands : C
  address : UInt8
  /-- How many bytes of the packet in progress went by. -/
  position : Nat
  /-- The bytes of the header, as far as they have come, before those of an older one. -/
  raw : List UInt8
  header : Header
  continuation : Option Continuation
  pending : Option Request
  transmitting : Bool
  trace : Line.Trace

namespace Framer

variable {C : Type}

def idle (commands : C) (address : UInt8) : Framer C where
  commands
  address
  position := 0
  raw := zeros Header.size
  header := default
  continuation := none
  pending := none
  transmitting := false
  trace := #[]

def call (framer : Framer C) (call : Line.Call) : Framer C :=
  { framer with trace := framer.trace.push call }

/-- Gives the line back if it was taken. -/
def giveBack (framer : Framer C) : Framer C :=
  if framer.transmitting then { (framer.call .flush).call .receive with transmitting := false }
  else framer

def endPacket (framer : Framer C) : Framer C :=
  { framer.giveBack.call .stopTimer with position := 0, continuation := none }

def timeout (framer : Framer C) : Framer C :=
  if framer.pending.isSome then framer else framer.endPacket

/-- The length that the packet declares, which is known as soon as two bytes have come. -/
def declaredLength (framer : Framer C) : Strict Nat := do
  return (ofWire [← Strict.get framer.raw 0, ← Strict.get framer.raw 1] : UInt16).toNat

/-- Ends the packet if as many bytes went by as it declares. -/
def closeOver (framer : Framer C) : Strict (Framer C) := do
  if 2 ≤ framer.position then
    if (← framer.declaredLength) ≤ framer.position then return framer.endPacket
    else return framer
  else return framer

/-- What follows a byte: a request that just became ready, as is told, stops the timer, and a packet
that is over ends. -/
def settle (framer : Framer C) : Strict (Bool × Framer C) := do
  if framer.pending.isSome then return (true, framer.call .stopTimer)
  else return (false, ← framer.closeOver)

variable [CommandSet C]

/-- Asks the command set about a header, if the packet is for this node. -/
def accept (framer : Framer C) : Framer C :=
  if framer.header.targets framer.address then
    match CommandSet.accept framer.commands framer.header with
    | (.ignore, commands) => { framer with commands }
    | (.execute, commands) =>
      { framer with commands, pending := some ⟨framer.header, .empty⟩ }
    | (.collect kind, commands) => { framer with commands, continuation := some (.fresh kind) }
  else framer

/-- Puts the byte with an index in the packet to the header or to the payload. -/
def keep (framer : Framer C) (i : Nat) (byte : UInt8) : Strict (Framer C) := do
  if i < Header.size then
    let raw ← Strict.set framer.raw i byte
    if (← Strict.add i 1) = Header.size then
      return { framer with raw, header := ofWire raw }.accept
    else return { framer with raw }
  else
    match framer.continuation with
    | none => return framer
    | some continuation =>
      match ← continuation.feed byte framer.position framer.header with
      | (_, some payload) =>
        return { framer with continuation := none, pending := some ⟨framer.header, payload⟩ }
      | (continuation, none) => return { framer with continuation := some continuation }

/-- Counts a byte and keeps it. -/
def count (framer : Framer C) (byte : UInt8) : Strict (Framer C) := do
  let position ← Strict.add framer.position 1
  ({ framer with position }.call .restartTimer).keep framer.position byte

/-- Takes a byte, and says whether a request just became ready. -/
def receive (framer : Framer C) (byte : UInt8) : Strict (Bool × Framer C) := do
  if framer.transmitting ∨ framer.pending.isSome then return (false, framer)
  else (← framer.count byte).settle

/-- Executes the request that is ready and ends its packet. -/
def execute [StrictCommandSet C] (framer : Framer C) : Strict (Option Command × Framer C) := do
  match framer.pending with
  | none => return (none, framer)
  | some request =>
    let session : Session :=
      ⟨request.header, framer.position, framer.address, framer.transmitting, framer.trace⟩
    let (session, commands) ← StrictCommandSet.execute framer.commands request session
    let framer : Framer C :=
      { framer with
        commands
        address := session.address
        position := session.position
        pending := none
        transmitting := session.transmitting
        trace := session.trace }
    return (some request.header.command, framer.endPacket)

/-- The packet on the line. -/
def packet {C : Type} (framer : Framer C) : Packet :=
  match framer.pending with
  | some request => .ready request framer.position
  | none =>
    if framer.position < Header.size then .opening (framer.raw.take framer.position)
    else .passing framer.header framer.position (framer.continuation.map Continuation.collector)

def link {C : Type} (framer : Framer C) : Link C :=
  ⟨framer.commands, framer.address, framer.packet, framer.trace⟩

/-- What is true of a framer whenever it is not executing a request. -/
structure Sound {C : Type} (framer : Framer C) : Prop where
  length_raw : framer.raw.length = Header.size
  silent : framer.transmitting = false
  header : Header.size ≤ framer.position → framer.header = ofWire framer.raw
  collecting : ∀ continuation, framer.continuation = some continuation →
    Header.size ≤ framer.position ∧ continuation.Sound

section Steps

variable {C : Type} {framer : Framer C}

theorem packet_of_pending (h : framer.pending = none) :
    framer.packet = if framer.position < Header.size then .opening (framer.raw.take framer.position)
      else .passing framer.header framer.position
        (framer.continuation.map Continuation.collector) := by
  rw [packet, h]

theorem link_opening (h : framer.pending = none) (hOpening : framer.position < Header.size) :
    framer.link = ⟨framer.commands, framer.address, .opening (framer.raw.take framer.position),
      framer.trace⟩ := by
  rw [link, packet_of_pending h, if_pos hOpening]

theorem link_passing (h : framer.pending = none) (hPassing : ¬framer.position < Header.size) :
    framer.link = ⟨framer.commands, framer.address, .passing framer.header framer.position
      (framer.continuation.map Continuation.collector), framer.trace⟩ := by
  rw [link, packet_of_pending h, if_neg hPassing]

theorem isReady_packet (framer : Framer C) :
    framer.packet.isReady = framer.pending.isSome := by
  rw [packet]
  cases framer.pending with
  | some request => rfl
  | none =>
      dsimp only
      split <;> rfl

theorem sound_idle (commands : C) (address : UInt8) : (idle commands address).Sound :=
  ⟨length_zeros _, rfl, fun h => absurd h (by simp [idle, Header.size]), nofun⟩

/-- At the end of a packet the line is free, whether it was taken or not. -/
theorem sound_endPacket (h : framer.raw.length = Header.size) : framer.endPacket.Sound := by
  have hIdle : ¬Header.size ≤ 0 := by decide
  cases hTaken : framer.transmitting with
  | false =>
      have hBack : framer.giveBack = framer := by rw [giveBack, hTaken]; rfl
      rw [endPacket, hBack]
      exact ⟨h, hTaken, fun h => absurd h hIdle, nofun⟩
  | true =>
      have hBack : framer.giveBack =
          { (framer.call .flush).call .receive with transmitting := false } := by
        rw [giveBack, hTaken]
        rfl
      rw [endPacket, hBack]
      exact ⟨h, rfl, fun h => absurd h hIdle, nofun⟩

theorem link_endPacket (sound : framer.Sound) (h : framer.pending = none) :
    framer.endPacket.link = framer.link.endPacket := by
  have hSilent := sound.silent
  obtain ⟨commands, address, position, raw, header, continuation, pending, transmitting, trace⟩ :=
    framer
  subst h hSilent
  rfl

/-- A timeout ends the packet as it does for the link. -/
theorem timeout_eq (sound : framer.Sound) :
    framer.timeout.link = framer.link.timeout ∧ framer.timeout.Sound := by
  have hReady : framer.link.packet.isReady = framer.pending.isSome := isReady_packet framer
  rw [timeout, Link.timeout, hReady]
  cases hPending : framer.pending with
  | some request => exact ⟨rfl, sound⟩
  | none => exact ⟨link_endPacket sound hPending, sound_endPacket sound.length_raw⟩

/-- The packet is over when the count has come to the number in the first two bytes. -/
theorem isOver_packet (sound : framer.Sound) (h : framer.pending = none) :
    framer.packet.isOver =
      decide (2 ≤ framer.position ∧ ofDigits (framer.raw.take 2) ≤ framer.position) := by
  have hLength := sound.length_raw
  rw [packet_of_pending h]
  split
  · next hOpening =>
      have hCount : (framer.raw.take framer.position).length = framer.position := by
        rw [List.length_take]
        omega
      rw [Packet.isOver_opening, hCount]
      by_cases hKnown : 2 ≤ framer.position
      · rw [List.take_take, Nat.min_eq_left hKnown]
      · simp [hKnown]
  · next hPassing =>
      have hHeader : Header.size ≤ framer.position := Nat.le_of_not_lt hPassing
      have hKnown : 2 ≤ framer.position := Nat.le_trans (by decide) hHeader
      rw [Packet.isOver_passing, sound.header hHeader, length_ofWire]
      simp [hKnown]

theorem declaredLength_eq (sound : framer.Sound) :
    framer.declaredLength = .ok (ofDigits (framer.raw.take 2)) := by
  have hLength : framer.raw.length = 4 := sound.length_raw
  rw [declaredLength]
  generalize framer.raw = raw at hLength ⊢
  rcases raw with _ | ⟨b₀, _ | ⟨b₁, rest⟩⟩
  · cases hLength
  · cases hLength
  · exact congrArg Except.ok (length_ofWire (b₀ :: b₁ :: rest))

/-- A packet that is over is closed without a trap. -/
theorem closeOver_eq (sound : framer.Sound) (h : framer.pending = none) :
    ∃ after, framer.closeOver = .ok after ∧ after.link = framer.link.settle ∧
      framer.link.settle.packet.isReady = false ∧ after.Sound := by
  have hReady : framer.link.packet.isReady = false := by rw [link, isReady_packet, h]; rfl
  have hOver : framer.link.packet.isOver = _ := isOver_packet sound h
  rw [closeOver, declaredLength_eq sound, Link.settle, hReady, hOver, if_neg Bool.false_ne_true]
  by_cases hKnown : 2 ≤ framer.position
  · rw [if_pos hKnown, Strict.ok_bind]
    by_cases hEnd : ofDigits (framer.raw.take 2) ≤ framer.position
    · rw [if_pos hEnd, if_pos (decide_eq_true ⟨hKnown, hEnd⟩)]
      exact ⟨_, rfl, link_endPacket sound h, rfl, sound_endPacket sound.length_raw⟩
    · rw [if_neg hEnd, if_neg fun h => hEnd (of_decide_eq_true h).2]
      exact ⟨_, rfl, rfl, hReady, sound⟩
  · rw [if_neg hKnown, if_neg fun h => hKnown (of_decide_eq_true h).1]
    exact ⟨_, rfl, rfl, hReady, sound⟩

/-- So is it unless a request is ready. -/
theorem settle_eq (sound : framer.Sound) :
    ∃ after, framer.settle = .ok (framer.link.settle.packet.isReady, after) ∧
      after.link = framer.link.settle ∧ after.Sound := by
  have hReady : framer.link.packet.isReady = framer.pending.isSome := isReady_packet framer
  cases hPending : framer.pending with
  | some request =>
      rw [settle, hPending, Link.settle, hReady, hPending, Option.isSome_some, if_pos rfl,
        if_pos rfl]
      refine ⟨framer.call .stopTimer, ?_, rfl, sound.length_raw, sound.silent, sound.header,
        sound.collecting⟩
      change Except.ok (true, _) = .ok (framer.link.packet.isReady, _)
      rw [hReady, hPending]
      rfl
  | none =>
      obtain ⟨after, hClose, hLink, hWaits, hAfter⟩ := closeOver_eq sound hPending
      refine ⟨after, ?_, hLink, hAfter⟩
      rw [settle, hPending, if_neg (by simp), hClose, hWaits]
      rfl

/-- A packet that is not over has not come to the largest length. -/
theorem position_lt {address : UInt8} (packet : framer.link.packet.Sound address)
    (h : framer.pending = none) : framer.position < UInt16.size := by
  rw [link, packet_of_pending h] at packet
  split at packet
  · next hOpening => exact Nat.lt_trans hOpening (by decide)
  · cases packet with
    | passing started more wanted => exact Nat.lt_trans more framer.header.length.toNat_lt

variable [CommandSet C]

/-- A framer whose header just came in whole. -/
def complete {C : Type} (commands : C) (address : UInt8) (raw : List UInt8) (trace : Line.Trace) :
    Framer C :=
  ⟨commands, address, Header.size, raw, ofWire raw, none, none, false, trace⟩

/-- A complete header is taken as the link takes it. -/
theorem accept_eq (commands : C) (address : UInt8) {raw : List UInt8} (trace : Line.Trace)
    (packet : Packet) (hLength : raw.length = Header.size) :
    (complete commands address raw trace).accept.link =
        (⟨commands, address, packet, trace⟩ : Link C).openPacket (ofWire raw) ∧
      (complete commands address raw trace).accept.Sound := by
  unfold accept Link.openPacket complete
  dsimp only
  by_cases hTargets : (ofWire raw : Header).targets address = true
  · rw [if_pos hTargets, if_pos hTargets]
    rcases CommandSet.accept commands (ofWire raw) with ⟨choice, commands⟩
    cases choice with
    | ignore => exact ⟨rfl, hLength, rfl, fun _ => rfl, nofun⟩
    | execute => exact ⟨rfl, hLength, rfl, fun _ => rfl, nofun⟩
    | collect kind =>
        refine ⟨?_, hLength, rfl, fun _ => rfl, fun continuation hSome => ?_⟩
        · dsimp only
          rw [← Continuation.collector_fresh]
          rfl
        · cases hSome
          exact ⟨Nat.le_refl _, Continuation.sound_fresh kind⟩
  · rw [if_neg hTargets, if_neg hTargets]
    exact ⟨rfl, hLength, rfl, fun _ => rfl, nofun⟩

/-- Counts a byte that comes next. -/
def counted {C : Type} (framer : Framer C) : Framer C :=
  { framer with position := framer.position + 1 }.call .restartTimer

/-- The first four bytes are those of the header. -/
theorem keep_opening (sound : framer.Sound) (h : framer.pending = none) (byte : UInt8)
    (hOpening : framer.position < Header.size) :
    ∃ after, framer.counted.keep framer.position byte = .ok after ∧
      after.link = (framer.link.call .restartTimer).count byte ∧ after.Sound := by
  obtain ⟨commands, address, position, raw, header, continuation, pending, transmitting, trace⟩ :=
    framer
  obtain ⟨hLength, hSilent, hHeader, hCollecting⟩ := sound
  dsimp only at h hLength hSilent hHeader hCollecting hOpening
  have hFresh : continuation = none := by
    cases continuation with
    | none => rfl
    | some continuation => exact absurd (hCollecting _ rfl).1 (Nat.not_le.mpr hOpening)
  subst h hSilent hFresh
  have hIndex : position < raw.length := hLength ▸ hOpening
  have hSmall : position + 1 < UInt32.size :=
    Nat.lt_of_le_of_lt (Nat.succ_le_of_lt hOpening) (by decide)
  have hSet : (raw.set position byte).length = Header.size := by rw [List.length_set, hLength]
  have hBytes : (raw.take position ++ [byte]).length = position + 1 := by
    rw [List.length_append, List.length_take, Nat.min_eq_left (Nat.le_of_lt hIndex)]
    rfl
  have hTake : (raw.set position byte).take (position + 1) = raw.take position ++ [byte] := by
    rw [List.take_add_one, List.take_set_of_le (Nat.le_refl _), List.getElem?_set_self hIndex]
    rfl
  rw [link_opening rfl hOpening, Link.count.eq_def, keep, if_pos hOpening]
  dsimp only [counted, call, Link.call]
  rw [hBytes, Strict.set_eq hIndex, Strict.ok_bind, Strict.add_eq hSmall, Strict.ok_bind]
  by_cases hWhole : position + 1 = Header.size
  · -- The byte was the last of the header, so none of the bytes is left over from an older one.
    have hAll : raw.take position ++ [byte] = raw.set position byte := by
      rw [← hTake, hWhole, ← hSet, List.take_length]
    rw [if_pos hWhole, if_neg (by omega), hAll, hWhole]
    exact ⟨_, rfl, accept_eq commands address _ _ hSet⟩
  · have hMore : position + 1 < Header.size := by omega
    rw [if_neg hWhole, if_pos hMore, ← hTake]
    exact ⟨_, rfl, link_opening rfl hMore, hSet, rfl,
      fun hPassing => absurd hPassing (Nat.not_le.mpr hMore),
      fun continuation hSome => absurd hSome.symm (Option.some_ne_none continuation)⟩

/-- The bytes after the header go by or to a payload. -/
theorem keep_passing (sound : framer.Sound) (h : framer.pending = none) (byte : UInt8)
    (hPassing : ¬framer.position < Header.size) :
    ∃ after, framer.counted.keep framer.position byte = .ok after ∧
      after.link = (framer.link.call .restartTimer).count byte ∧ after.Sound := by
  obtain ⟨commands, address, position, raw, header, continuation, pending, transmitting, trace⟩ :=
    framer
  obtain ⟨hLength, hSilent, hHeader, hCollecting⟩ := sound
  dsimp only at h hLength hSilent hHeader hCollecting hPassing
  subst h hSilent
  have hNext : ¬position + 1 < Header.size := fun hShort => hPassing (Nat.lt_of_succ_lt hShort)
  have hRead : header = ofWire raw := hHeader (Nat.le_of_not_lt hPassing)
  rw [link_passing rfl hPassing, Link.count.eq_def, keep, if_neg hPassing]
  dsimp only [counted, call, Link.call]
  cases continuation with
  | none => exact ⟨_, rfl, link_passing rfl hNext, hLength, rfl, fun _ => hRead, nofun⟩
  | some continuation =>
      obtain ⟨after, payload, hFeed, hFed, hAfter⟩ :=
        Continuation.feed_eq (hCollecting _ rfl).2 byte (position + 1) header
      dsimp only [Option.map_some]
      rw [hFeed, Strict.ok_bind, hFed]
      cases payload with
      | some payload => exact ⟨_, rfl, rfl, hLength, rfl, fun _ => hRead, nofun⟩
      | none =>
          refine ⟨_, rfl, link_passing rfl hNext, hLength, rfl, fun _ => hRead,
            fun continuation hSome => ?_⟩
          cases hSome
          exact ⟨Nat.le_of_not_lt hNext, hAfter⟩

/-- A byte is counted without a trap. -/
theorem count_eq (sound : framer.Sound) (packet : framer.link.packet.Sound framer.address)
    (h : framer.pending = none) (byte : UInt8) :
    ∃ after, framer.count byte = .ok after ∧
      after.link = (framer.link.call .restartTimer).count byte ∧ after.Sound := by
  -- The packet is not over, so the count has not come to what sixteen bits can declare.
  have hPosition : framer.position + 1 < UInt32.size :=
    Nat.lt_trans (Nat.succ_lt_succ (position_lt packet h)) (by decide)
  rw [count, Strict.add_eq hPosition, Strict.ok_bind]
  by_cases hOpening : framer.position < Header.size
  · exact keep_opening sound h byte hOpening
  · exact keep_passing sound h byte hOpening

/-- A byte is received without a trap. -/
theorem receive_eq (sound : framer.Sound) (packet : framer.link.packet.Sound framer.address)
    (byte : UInt8) :
    ∃ after, framer.receive byte =
        .ok (!framer.link.packet.isReady && (framer.link.receive byte).packet.isReady, after) ∧
      after.link = framer.link.receive byte ∧ after.Sound := by
  have hReady : framer.link.packet.isReady = framer.pending.isSome := isReady_packet framer
  cases hPending : framer.pending with
  | some request =>
      have hReceive : framer.link.receive byte = framer.link := by
        rw [Link.receive, hReady, hPending, Option.isSome_some, if_pos rfl]
      refine ⟨framer, ?_, hReceive.symm, sound⟩
      rw [receive, hPending, if_pos (.inr rfl), hReady, hPending]
      rfl
  | none =>
      obtain ⟨kept, hCount, hLink, hKept⟩ := count_eq sound packet hPending byte
      obtain ⟨after, hSettle, hAfter, hSound⟩ := settle_eq hKept
      have hReceive : framer.link.receive byte = kept.link.settle := by
        rw [Link.receive, hReady, hPending, hLink, if_neg (by simp)]
      refine ⟨after, ?_, hAfter.trans hReceive.symm, hSound⟩
      rw [receive, hPending, sound.silent, if_neg (by simp), hCount, Strict.ok_bind, hSettle,
        hReady, hPending, hReceive]
      rfl

/-- A request is executed without a trap. -/
theorem execute_eq [StrictCommandSet C] (sound : framer.Sound) :
    ∃ after, framer.execute = .ok (framer.link.execute.1, after) ∧
      after.link = framer.link.execute.2 ∧ after.Sound := by
  cases hPending : framer.pending with
  | none =>
      have hWaiting : framer.link.execute = (none, framer.link) := by
        rw [link, packet_of_pending hPending]
        split <;> rfl
      refine ⟨framer, ?_, by rw [hWaiting], sound⟩
      rw [execute, hPending, hWaiting]
      rfl
  | some request =>
      obtain ⟨commands, address, position, raw, header, continuation, pending, transmitting,
        trace⟩ := framer
      have hSilent := sound.silent
      dsimp only at hSilent hPending
      subst hSilent hPending
      rw [execute]
      dsimp only
      rw [StrictCommandSet.execute_eq, Strict.ok_bind]
      refine ⟨_, rfl, ?_, sound_endPacket sound.length_raw⟩
      dsimp only [link, packet, Link.execute]
      -- Only now the line may have been taken, and the end of the packet gives it back.
      generalize Session.run _ _ = session
      obtain ⟨header, position, address, transmitting, trace⟩ := session
      cases transmitting <;> rfl

end Steps

end Framer

end Multidrop
