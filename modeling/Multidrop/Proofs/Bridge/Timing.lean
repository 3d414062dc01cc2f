import Multidrop.Proofs.Bridge.Handling
import Multidrop.Proofs.Bridge.Polling

/-!
How long the bridge waits for received bytes, and what the host then gets. The reply of the host is
a buffer of the size of a packet of which the front is filled. What is found is always the oldest
byte that is left, and the bridge gives up only after the last of 131 looks in a row that find
nothing.
-/

namespace Multidrop.Bridge

/-- What handling a packet came to, with the reply as a buffer of the host. -/
structure Handled where
  /-- How many bytes of the reply are for the host, if the packet is answered. -/
  count? : Option Nat
  reply : List UInt8
  bridge : Bridge
  log : Log := []

/-- Handles one packet of the host, in strict operations. -/
def strictHandle (bridge : Bridge) (request overheard reply : List UInt8) (schedule : Schedule) :
    Strict Handled := do
  match request with
  | [] => return { count? := none, reply, bridge }
  | command :: data =>
    if command = transmitRequest then
      let trace := ((bridge.trace.push .transmit).push (.write data)).push .flush
      let ring := (bridge.ring.pushAll overheard).clear
      return { count? := none, reply, bridge := ⟨ring, trace.push .receive⟩ }
    else if command = receiveRequest then
      match data with
      | [] => return { count? := none, reply, bridge }
      | wanted :: _ =>
        let size := min wanted.toNat packetSize
        let buffer ← Strict.slice reply 0 size
        let gathering ← Gathering.collect schedule (131 * (size + 1))
          { ring := bridge.ring, buffer }
        return {
          count? := some gathering.count
          reply := ← Strict.copy reply 0 size gathering.buffer
          bridge := { bridge with ring := gathering.ring }
          log := gathering.log }
    else if command = echoRequest then
      let size := min data.length packetSize
      let part ← Strict.slice data 0 size
      return { count? := some size, reply := ← Strict.copy reply 0 size part, bridge }
    else return { count? := none, reply, bridge }

/-- A packet for received bytes is the loop over a buffer as long as what is wanted. -/
theorem strictHandle_receive (bridge : Bridge) (wanted : UInt8) (more overheard : List UInt8)
    {reply : List UInt8} (hReply : reply.length = packetSize) (schedule : Schedule) :
    ∃ gathering,
      Gathering.collect schedule (131 * (min wanted.toNat packetSize + 1))
          { ring := bridge.ring, buffer := reply.take (min wanted.toNat packetSize) } =
        .ok gathering ∧
      Collected bridge.ring (reply.take (min wanted.toNat packetSize)) gathering ∧
      bridge.strictHandle (receiveRequest :: wanted :: more) overheard reply schedule =
        .ok {
          count? := some gathering.count
          reply := gathering.log.taken ++ reply.drop gathering.count
          bridge := { bridge with ring := gathering.ring }
          log := gathering.log } := by
  have hSize : min wanted.toNat packetSize ≤ reply.length := hReply ▸ Nat.min_le_right ..
  have hLength : (reply.take (min wanted.toNat packetSize)).length = min wanted.toNat packetSize :=
    List.length_take_of_le hSize
  have hSmall : (reply.take (min wanted.toNat packetSize)).length < UInt32.size := by
    have hPacket : packetSize < UInt32.size := by decide
    omega
  have hRounds : 131 * ((reply.take (min wanted.toNat packetSize)).length - 0) + 131 ≤
      131 * (min wanted.toNat packetSize + 1) + 0 := by
    rw [hLength]
    omega
  obtain ⟨gathering, hCollect, collected⟩ :=
    (Collecting.initial bridge.ring (reply.take (min wanted.toNat packetSize))).collect hSmall
      schedule hRounds
  refine ⟨gathering, hCollect, collected, ?_⟩
  have hCount := collected.count_le
  have hBuffer : gathering.buffer ++ reply.drop (min wanted.toNat packetSize) =
      gathering.log.taken ++ reply.drop gathering.count := by
    rw [collected.buffer, List.append_assoc, ← List.drop_append_of_le_length hCount,
      List.take_append_drop]
  have hCopied := collected.toGathered.length_buffer
  rw [strictHandle, if_neg (by decide), if_pos rfl]
  dsimp only
  rw [Strict.slice_eq (Nat.zero_le _) hSize, Strict.ok_bind, List.drop_zero, hCollect,
    Strict.ok_bind, Strict.copy_eq (Nat.zero_le _) hSize (by omega), List.take_zero,
    List.nil_append, hBuffer]
  rfl

/-- How many delays there were. -/
def Log.delays (log : Log) : Nat :=
  log.countP fun event => event.micros ≠ 0

/-- The schedule by which bytes come in during the delays alone. -/
def duringDelays (arrivals : Nat → List UInt8) (log : Log) : List UInt8 :=
  match log.getLast? with
  | some (.delay _) => arrivals (log.delays - 1)
  | _ => []

section Delays

variable {arrivals : Nat → List UInt8}

@[simp] theorem Log.delays_append (log more : Log) :
    Log.delays (log ++ more) = log.delays + more.delays :=
  List.countP_append

@[simp] theorem Log.delays_look (silence : Nat) (found : Option UInt8) (log : Log) :
    Log.delays (.look silence found :: log) = log.delays := by
  simp [Log.delays, Event.micros]

@[simp] theorem Log.delays_delay (log : Log) :
    Log.delays (.delay pollDelay :: log) = log.delays + 1 := by
  simp [Log.delays, Event.micros, pollDelay]

@[simp] theorem Log.delays_nil : Log.delays [] = 0 :=
  rfl

@[simp] theorem Log.delays_came (bytes : List UInt8) : Log.delays (bytes.map .came) = 0 := by
  simp [Log.delays, Event.micros]

/-- After a look nothing has come in yet. -/
theorem duringDelays_look (log : Log) (silence : Nat) (found : Option UInt8) :
    duringDelays arrivals (log ++ [.look silence found]) = [] := by
  simp [duringDelays]

/-- After a delay what came in during it is there. -/
theorem duringDelays_delay (log : Log) :
    duringDelays arrivals (log ++ [.delay pollDelay]) = arrivals log.delays := by
  rw [duringDelays, List.getLast?_concat, Log.delays_append]
  rfl

/-- Where bytes come in during the delays, the loop on the buffer finds what `collect` finds. -/
theorem collect_eq {gathering after : Gathering} {rounds : Nat}
    (hSize : gathering.buffer.length < UInt32.size)
    (hNone : gathering.count < gathering.buffer.length ∨ duringDelays arrivals gathering.log = [])
    (h : gathering.collect (duringDelays arrivals) rounds = .ok after) :
    ∃ bytes, after.log.taken = gathering.log.taken ++ bytes ∧
      collect arrivals (gathering.buffer.length - gathering.count) gathering.silence
          gathering.log.delays (gathering.ring.pushAll (duringDelays arrivals gathering.log)) =
        (bytes, after.log.delays, after.ring) := by
  induction rounds generalizing gathering with
  | zero => cases h
  | succ rounds ih =>
      by_cases hMore : gathering.count < gathering.buffer.length
      · have hWant : ¬gathering.buffer.length - gathering.count = 0 := by omega
        rcases hPop : (gathering.ring.pushAll (duringDelays arrivals gathering.log)).pop with
          ⟨_ | byte, rest⟩
        · by_cases hIdle : receiveIdle ≤ gathering.silence
          · rw [Gathering.collect_idle hMore hPop hIdle] at h
            have hAfter := Except.ok.inj h
            subst hAfter
            refine ⟨[], ?_, ?_⟩
            · simp [Gathering.miss, Gathering.arrive, Event.found?]
            · rw [collect_idle hWant hPop hIdle]
              simp [Gathering.miss, Gathering.arrive]
          · rw [Gathering.collect_wait hMore hPop hIdle] at h
            obtain ⟨bytes, hTaken, hCollect⟩ := @ih ((gathering.arrive
              (duringDelays arrivals gathering.log)).miss rest).paused hSize (.inl hMore) h
            refine ⟨bytes, ?_, ?_⟩
            · rw [hTaken]
              simp [Gathering.paused, Gathering.miss, Gathering.arrive, Event.found?]
            · rw [collect_wait hWant hPop hIdle, ← hCollect]
              simp only [Gathering.paused, duringDelays_delay]
              simp [Gathering.miss, Gathering.arrive]
        · rw [Gathering.collect_some hSize hMore hPop] at h
          rw [collect_some hWant hPop]
          have hLength : ((gathering.arrive (duringDelays arrivals gathering.log)).kept byte
              rest).buffer.length = gathering.buffer.length := List.length_set
          obtain ⟨bytes, hTaken, hCollect⟩ := @ih ((gathering.arrive
            (duringDelays arrivals gathering.log)).kept byte rest) (hLength ▸ hSize)
            (.inr (duringDelays_look ..)) h
          refine ⟨byte :: bytes, ?_, ?_⟩
          · rw [hTaken]
            simp [Gathering.kept, Gathering.arrive, Event.found?]
          · rw [hLength] at hCollect
            simp only [Gathering.kept, duringDelays_look, Gathering.arrive, Log.delays_append,
              Log.delays_look, Log.delays_nil, Log.delays_came, Nat.add_zero] at hCollect
            have hRest : rest.pushAll [] = rest := rfl
            rw [hRest] at hCollect
            rw [Nat.sub_sub, hCollect]
      · rw [Gathering.collect_full hMore] at h
        have hAfter := Except.ok.inj h
        subst hAfter
        have hWant : gathering.buffer.length - gathering.count = 0 := by omega
        refine ⟨[], (List.append_nil _).symm, ?_⟩
        rw [hWant, collect_full, hNone.resolve_left hMore]
        rfl

/-- A packet for received bytes, where bytes come in during the delays. -/
theorem handle_of_collect {bridge : Bridge} {wanted : UInt8} {reply : List UInt8}
    (hReply : reply.length = packetSize) {gathering : Gathering} {rounds : Nat}
    (h : Gathering.collect (duringDelays arrivals) rounds
        { ring := bridge.ring, buffer := reply.take (min wanted.toNat packetSize) } =
      .ok gathering) (more overheard : List UInt8) :
    bridge.handle (receiveRequest :: wanted :: more) overheard arrivals =
      (⟨some gathering.log.taken, gathering.log.delays⟩,
        { bridge with ring := gathering.ring }) := by
  have hPacket : packetSize < UInt32.size := by decide
  have hLength : (reply.take (min wanted.toNat packetSize)).length = min wanted.toNat packetSize :=
    List.length_take_of_le (hReply ▸ Nat.min_le_right ..)
  obtain ⟨bytes, hTaken, hCollect⟩ := collect_eq (by dsimp only; omega) (.inr rfl) h
  dsimp only at hTaken hCollect
  rw [hLength] at hCollect
  rw [hTaken]
  exact handle_receive hCollect bridge.trace more overheard

/-- What a bridge does with a packet in strict operations is what it does with it otherwise. -/
theorem strictHandle_eq (bridge : Bridge) (request overheard : List UInt8) {reply : List UInt8}
    (hReply : reply.length = packetSize) (arrivals : Nat → List UInt8) :
    ∃ handled, bridge.strictHandle request overheard reply (duringDelays arrivals) = .ok handled ∧
      bridge.handle request overheard arrivals =
        (⟨handled.count?.map fun count => handled.reply.take count, handled.log.delays⟩,
          handled.bridge) := by
  rcases request with _ | ⟨command, data⟩
  · exact ⟨_, rfl, rfl⟩
  · by_cases hTransmit : command = transmitRequest
    · unfold strictHandle handle
      simp only [if_pos hTransmit]
      exact ⟨_, rfl, rfl⟩
    · by_cases hReceive : command = receiveRequest
      · subst hReceive
        rcases data with _ | ⟨wanted, more⟩
        · exact ⟨_, rfl, rfl⟩
        · obtain ⟨gathering, hCollect, collected, hStrict⟩ :=
            strictHandle_receive bridge wanted more overheard hReply (duringDelays arrivals)
          refine ⟨_, hStrict, ?_⟩
          rw [handle_of_collect hReply hCollect, Option.map_some,
            List.take_left' collected.count]
      · by_cases hEcho : command = echoRequest
        · have hData : min data.length packetSize ≤ data.length := Nat.min_le_left ..
          have hRoom : min data.length packetSize ≤ reply.length := hReply ▸ Nat.min_le_right ..
          have hPart : (data.take (min data.length packetSize)).length =
              min data.length packetSize := List.length_take_of_le hData
          have hTake : data.take (min data.length packetSize) = data.take packetSize := by
            rw [Nat.min_comm, ← List.take_take, List.take_length]
          unfold strictHandle handle
          simp only [if_neg hTransmit, if_neg hReceive, if_pos hEcho]
          rw [Strict.slice_eq (Nat.zero_le _) hData, Strict.ok_bind, List.drop_zero,
            Strict.copy_eq (Nat.zero_le _) hRoom (by rw [hPart, Nat.sub_zero]), Strict.ok_bind]
          refine ⟨_, rfl, ?_⟩
          dsimp only
          rw [List.take_zero, List.nil_append, Option.map_some, List.take_left' hPart, hTake]
          rfl
        · unfold strictHandle handle
          simp only [if_neg hTransmit, if_neg hReceive, if_neg hEcho]
          exact ⟨_, rfl, rfl⟩

end Delays

/-- Each time the bridge looks it finds the front of the queue of the newest bytes. -/
theorem Log.Faithful.queue_head {capacity : Nat} {earlier : List Ring.Call} {log : Log}
    {ring : Ring} (faithful : log.Faithful ((Ring.empty capacity).after earlier) ring)
    (divides : capacity ∣ 2 ^ 64) (spaced : Ring.Spaced capacity (earlier ++ log.calls))
    {past : Log} {silence : Nat} {found : Option UInt8}
    (hPast : past ++ [.look silence found] <+: log) :
    found = (Queue.after capacity (earlier ++ past.calls)).head? := by
  have hBefore : earlier ++ past.calls <+: earlier ++ log.calls := by
    obtain ⟨later, rfl⟩ := hPast
    simp
  have mirrors := Ring.Mirrors.after divides (spaced.of_prefix hBefore)
  rw [faithful.looks past silence found hPast, ← mirrors.pop.1]
  simp only [Ring.after, List.foldl_append]

/-- What the ring holds follows the calls that an event makes on it. -/
theorem queue_concat (capacity : Nat) (earlier : List Ring.Call) (log : Log) (event : Event) :
    Queue.after capacity (earlier ++ Log.calls (log ++ [event])) =
      event.call?.elim (Queue.after capacity (earlier ++ log.calls))
        (Queue.step capacity (Queue.after capacity (earlier ++ log.calls))) := by
  rw [Log.calls_append, ← List.append_assoc, Log.calls_cons, Log.calls_nil, List.append_nil]
  cases event.call? with
  | none => rw [Option.toList_none, List.append_nil]; rfl
  | some call => exact Queue.after_concat ..

/-- What is found in a queue that does not overflow, and what is left in it, are the bytes it had
and those that came, in their order. -/
theorem taken_append_queue {capacity : Nat} {earlier : List Ring.Call} {log : Log}
    (hOldest : ∀ past silence found, past ++ [.look silence found] <+: log →
      found = (Queue.after capacity (earlier ++ Log.calls past)).head?)
    (room : (Queue.after capacity earlier ++ log.arrived).length ≤ capacity) :
    log.taken ++ Queue.after capacity (earlier ++ log.calls) =
      Queue.after capacity earlier ++ log.arrived := by
  induction log using List.reverseRecOn with
  | nil => simp
  | append_singleton log event ih =>
      rw [Log.arrived_append, ← List.append_assoc, List.length_append] at room
      have hBefore := ih
        (fun past silence found hPast => hOldest past silence found
          (hPast.trans (List.prefix_append ..)))
        (Nat.le_trans (Nat.le_add_right ..) room)
      rw [queue_concat, Log.arrived_append, ← List.append_assoc, ← hBefore]
      rw [← hBefore, List.length_append] at room
      obtain ⟨queue, hQueue⟩ : ∃ queue, Queue.after capacity (earlier ++ Log.calls log) = queue :=
        ⟨_, rfl⟩
      rw [hQueue] at room ⊢
      cases event with
      | came byte =>
          have hRoom : queue.length < capacity := by
            simp only [Log.arrived_cons, Log.arrived_nil, Event.byte?, Option.toList_some,
              List.length_append, List.length_cons, List.length_nil] at room
            omega
          simp [Event.found?, Event.byte?, Event.call?, Queue.step_push_of_room hRoom]
      | look silence found =>
          have hFound := hOldest log silence found List.prefix_rfl
          rw [hQueue] at hFound
          rw [hFound]
          cases queue <;> simp [Event.found?, Event.byte?, Event.call?, Queue.step]
      | delay micros => simp [Event.found?, Event.byte?, Event.call?]

/-- What is found in a ring, look by look. -/
structure Log.Oldest (log : Log) (ring : Ring) : Prop where
  /-- It is the oldest byte that the ring holds then. -/
  held : 0 < ring.capacity → ∀ past silence found, past ++ [.look silence found] <+: log →
    found = (ring.after (Log.calls past)).held.head?
  /-- In a ring in use since it was empty, it is the oldest of the newest bytes that came. -/
  queue : ∀ capacity earlier, capacity ∣ 2 ^ 64 → ring = (Ring.empty capacity).after earlier →
    Ring.Spaced capacity (earlier ++ log.calls) →
    ∀ past silence found, past ++ [.look silence found] <+: log →
      found = (Queue.after capacity (earlier ++ Log.calls past)).head?
  /-- Where such a ring has room for all that comes, the bytes are found in their order. -/
  inOrder : ∀ capacity earlier, capacity ∣ 2 ^ 64 → ring = (Ring.empty capacity).after earlier →
    Ring.Spaced capacity (earlier ++ log.calls) →
    (Queue.after capacity earlier ++ log.arrived).length ≤ capacity →
    log.taken <+: Queue.after capacity earlier ++ log.arrived

/-- What is taken is the oldest byte that is there, at every look. -/
theorem Log.Faithful.oldest {ring after : Ring} {log : Log} (faithful : log.Faithful ring after) :
    log.Oldest ring where
  held hCapacity past silence found hPast := by
    have hHeld := (ring.after (Log.calls past)).pop_held (ring.capacity_after _ ▸ hCapacity)
    rw [faithful.looks past silence found hPast, hHeld.1]
  queue capacity earlier divides hRing spaced past silence found hPast := by
    subst hRing
    exact faithful.queue_head divides spaced hPast
  inOrder capacity earlier divides hRing spaced room := by
    subst hRing
    exact ⟨_, taken_append_queue
      (fun past silence found hPast => faithful.queue_head divides spaced hPast) room⟩

/-- A byte that comes in during the last delay before the bridge gives up. -/
def late (delay : Nat) : List UInt8 :=
  if delay = 129 then [7] else []

end Multidrop.Bridge
