import Multidrop.Bridge
import Multidrop.Proofs.Ring
import Multidrop.Proofs.Strict.Operation

/-!
Waiting for received bytes, look by look. Bytes may come in before any look into the ring, and a log
keeps what came, each look with the silence before it, and each delay. The loop is written in strict
operations on the buffer that it fills. A byte that is found and a delay both bring its end nearer,
because there are at most 131 looks for each byte that is still wanted and for the end.
-/

namespace Multidrop.Bridge

/-- What goes on while the bridge collects bytes. -/
inductive Event where
  | came (byte : UInt8)
  /-- The bridge looks into the ring, after so many microseconds of silence. -/
  | look (silence : Nat) (found : Option UInt8)
  /-- The bridge waits for so many microseconds. -/
  | delay (micros : Nat)
  deriving DecidableEq

namespace Event

def byte? : Event → Option UInt8
  | came byte => some byte
  | _ => none

def found? : Event → Option UInt8
  | look _ found => found
  | _ => none

def micros : Event → Nat
  | delay micros => micros
  | _ => 0

/-- Whether it is the bridge that does it. -/
def isDeed : Event → Bool
  | came _ => false
  | _ => true

/-- What it asks of the ring. -/
def call? : Event → Option Ring.Call
  | came byte => some (.push byte)
  | look _ _ => some .pop
  | delay _ => none

end Event

/-- What went on, in order. -/
abbrev Log := List Event

namespace Log

/-- The bytes that came in. -/
def arrived (log : Log) : List UInt8 :=
  log.filterMap Event.byte?

/-- The bytes that the bridge found. -/
def taken (log : Log) : List UInt8 :=
  log.filterMap Event.found?

/-- How many microseconds the bridge waited. -/
def waited (log : Log) : Nat :=
  log.foldr (fun event total => event.micros + total) 0

/-- The looks and the delays. -/
def deeds (log : Log) : Log :=
  log.filter Event.isDeed

def calls (log : Log) : List Ring.Call :=
  log.filterMap Event.call?

/-- So many looks that found nothing, with a delay after each of them. -/
def empty (looks : Nat) : Log :=
  (List.range looks).flatMap fun look => [.look (10 * look) none, .delay 10]

/-- The looks after which the bridge gives up: 131 of them that found nothing, with 130 delays
between them. -/
def quiet : Log :=
  empty 130 ++ [.look 1300 none]

/-- Nothing was done yet, or a byte was found last. -/
def Fresh (log : Log) : Prop :=
  log = [] ∨ ∃ before silence byte, log = before ++ [.look silence (some byte)]

end Log

/-- The bytes that come in before the next look. They may depend on all that went on before. -/
abbrev Schedule := Log → List UInt8

/-- A buffer that is filled from a ring. -/
structure Gathering where
  ring : Ring
  buffer : List UInt8
  count : Nat := 0
  silence : Nat := 0
  log : Log := []

namespace Gathering

def arrive (gathering : Gathering) (bytes : List UInt8) : Gathering :=
  { gathering with
    ring := gathering.ring.pushAll bytes
    log := gathering.log ++ bytes.map .came }

/-- A look that found nothing. -/
def miss (gathering : Gathering) (ring : Ring) : Gathering :=
  { gathering with
    ring
    log := gathering.log ++ [.look gathering.silence none] }

/-- A look that found a byte, and the byte put into the buffer. -/
def keep (gathering : Gathering) (byte : UInt8) (ring : Ring) : Strict Gathering := do
  let buffer ← Strict.set gathering.buffer gathering.count byte
  let count ← Strict.add gathering.count 1
  return ⟨ring, buffer, count, 0, gathering.log ++ [.look gathering.silence (some byte)]⟩

def pause (gathering : Gathering) : Strict Gathering := do
  let silence ← Strict.add gathering.silence pollDelay
  return { gathering with
    silence
    log := gathering.log ++ [.delay pollDelay] }

/-- Fills the buffer until it is full or there was silence for long enough, for so many rounds at
most. -/
def collect (schedule : Schedule) : (rounds : Nat) → Gathering → Strict Gathering
  | 0, _ => .error .endless
  | rounds + 1, gathering => do
    if gathering.count < gathering.buffer.length then
      let gathering := gathering.arrive (schedule gathering.log)
      match gathering.ring.pop with
      | (some byte, ring) => collect schedule rounds (← gathering.keep byte ring)
      | (none, ring) =>
        let gathering := gathering.miss ring
        if receiveIdle ≤ gathering.silence then return gathering
        else collect schedule rounds (← gathering.pause)
    else return gathering

/-- What `keep` gives where the buffer has room. -/
def kept (gathering : Gathering) (byte : UInt8) (ring : Ring) : Gathering :=
  ⟨ring, gathering.buffer.set gathering.count byte, gathering.count + 1, 0,
    gathering.log ++ [.look gathering.silence (some byte)]⟩

/-- What `pause` gives while the silence is short. -/
def paused (gathering : Gathering) : Gathering :=
  { gathering with
    silence := gathering.silence + pollDelay
    log := gathering.log ++ [.delay pollDelay] }

section Rounds

variable {schedule : Schedule} {gathering : Gathering} {rest : Ring}

/-- To keep a byte that there is room for does not trap. -/
theorem keep_eq (gathering : Gathering) (hSize : gathering.buffer.length < UInt32.size)
    (hMore : gathering.count < gathering.buffer.length) (byte : UInt8) (ring : Ring) :
    gathering.keep byte ring = .ok (gathering.kept byte ring) := by
  rw [keep, Strict.set_eq hMore, Strict.ok_bind, Strict.add_eq (by omega)]
  rfl

/-- To wait does not trap while the silence has not lasted. -/
theorem pause_eq (gathering : Gathering) (hIdle : ¬receiveIdle ≤ gathering.silence) :
    gathering.pause = .ok gathering.paused := by
  have hLimit : receiveIdle + pollDelay < UInt32.size := by decide
  rw [pause, Strict.add_eq (by omega)]
  rfl

/-- A buffer that is full ends the loop. -/
theorem collect_full (hFull : ¬gathering.count < gathering.buffer.length) (rounds : Nat) :
    gathering.collect schedule (rounds + 1) = .ok gathering := by
  rw [collect, if_neg hFull]
  rfl

/-- A byte that was found is kept and the loop goes on. -/
theorem collect_some {byte : UInt8} (hSize : gathering.buffer.length < UInt32.size)
    (hMore : gathering.count < gathering.buffer.length)
    (hPop : (gathering.arrive (schedule gathering.log)).ring.pop = (some byte, rest))
    (rounds : Nat) :
    gathering.collect schedule (rounds + 1) =
      ((gathering.arrive (schedule gathering.log)).kept byte rest).collect schedule rounds := by
  have hKeep := (gathering.arrive (schedule gathering.log)).keep_eq hSize hMore byte rest
  rw [collect, if_pos hMore]
  simp only [hPop, hKeep, Strict.ok_bind]

/-- A look in vain after enough silence ends the loop. -/
theorem collect_idle (hMore : gathering.count < gathering.buffer.length)
    (hPop : (gathering.arrive (schedule gathering.log)).ring.pop = (none, rest))
    (hIdle : receiveIdle ≤ gathering.silence) (rounds : Nat) :
    gathering.collect schedule (rounds + 1) =
      .ok ((gathering.arrive (schedule gathering.log)).miss rest) := by
  rw [collect, if_pos hMore]
  simp only [hPop]
  exact if_pos hIdle

/-- A look in vain before that is followed by a delay. -/
theorem collect_wait (hMore : gathering.count < gathering.buffer.length)
    (hPop : (gathering.arrive (schedule gathering.log)).ring.pop = (none, rest))
    (hIdle : ¬receiveIdle ≤ gathering.silence) (rounds : Nat) :
    gathering.collect schedule (rounds + 1) =
      ((gathering.arrive (schedule gathering.log)).miss rest).paused.collect schedule rounds := by
  have hPause := ((gathering.arrive (schedule gathering.log)).miss rest).pause_eq hIdle
  rw [collect, if_pos hMore]
  simp only [hPop, hPause, Strict.ok_bind]
  exact if_neg hIdle

end Rounds

end Gathering

namespace Log

variable (log more : Log) (event : Event) (bytes : List UInt8)

@[simp] theorem taken_append : taken (log ++ more) = log.taken ++ more.taken :=
  List.filterMap_append

@[simp] theorem deeds_append : deeds (log ++ more) = log.deeds ++ more.deeds :=
  List.filter_append ..

@[simp] theorem calls_append : calls (log ++ more) = log.calls ++ more.calls :=
  List.filterMap_append

@[simp] theorem arrived_append : arrived (log ++ more) = log.arrived ++ more.arrived :=
  List.filterMap_append

@[simp] theorem waited_append : waited (log ++ more) = log.waited + more.waited := by
  induction log with
  | nil => exact (Nat.zero_add _).symm
  | cons event log ih => exact (congrArg (event.micros + ·) ih).trans (Nat.add_assoc ..).symm

@[simp] theorem taken_cons : taken (event :: log) = event.found?.toList ++ log.taken := by
  cases h : event.found? <;> simp [taken, h]

@[simp] theorem calls_cons : calls (event :: log) = event.call?.toList ++ log.calls := by
  cases h : event.call? <;> simp [calls, h]

@[simp] theorem arrived_cons : arrived (event :: log) = event.byte?.toList ++ log.arrived := by
  cases h : event.byte? <;> simp [arrived, h]

@[simp] theorem waited_cons : waited (event :: log) = event.micros + log.waited :=
  rfl

@[simp] theorem taken_nil : taken [] = [] :=
  rfl

@[simp] theorem calls_nil : calls [] = [] :=
  rfl

@[simp] theorem arrived_nil : arrived [] = [] :=
  rfl

@[simp] theorem waited_nil : waited [] = 0 :=
  rfl

@[simp] theorem taken_came : taken (bytes.map .came) = [] := by
  simp [taken, Event.found?]

@[simp] theorem deeds_came : deeds (bytes.map .came) = [] := by
  simp [deeds, Event.isDeed]

@[simp] theorem waited_came : waited (bytes.map .came) = 0 := by
  induction bytes with
  | nil => rfl
  | cons byte bytes ih => exact (Nat.zero_add _).trans ih

/-- A run of looks in vain is one shorter run with a look and a delay more. -/
theorem empty_succ (looks : Nat) :
    empty (looks + 1) = empty looks ++ [.look (10 * looks) none] ++ [.delay 10] := by
  simp [empty, List.range_succ]

end Log

/-- A log of what was done to a ring, and what was found in it each time. -/
structure Log.Faithful (start : Ring) (log : Log) (ring : Ring) : Prop where
  ring : ring = start.after log.calls
  looks : ∀ past silence found, past ++ [.look silence found] <+: log →
    found = (start.after (Log.calls past)).pop.1

/-- A log goes on being faithful if what a look found was there. -/
theorem Log.Faithful.concat {start ring : Ring} {log : Log} (faithful : log.Faithful start ring)
    {event : Event} (hFound : ∀ silence found, event = .look silence found → found = ring.pop.1) :
    Log.Faithful start (log ++ [event]) (event.call?.elim ring ring.step) where
  ring := by
    rw [Log.calls_append, Log.calls_cons, Log.calls_nil, List.append_nil, faithful.ring]
    cases event.call? with
    | none => rw [Option.toList_none, List.append_nil]; rfl
    | some call => exact (List.foldl_concat Ring.step start call log.calls).symm
  looks := by
    intro past silence found hPast
    rcases List.prefix_concat_iff.mp hPast with hLast | hBefore
    · obtain ⟨rfl, hEvent⟩ := List.append_inj' hLast rfl
      rw [← faithful.ring]
      exact hFound silence found (List.singleton_inj.mp hEvent).symm
    · exact faithful.looks past silence found hBefore

/-- What was gathered so far agrees with the log. -/
structure Gathered (start : Ring) (reply : List UInt8) (gathering : Gathering) : Prop where
  count : gathering.log.taken.length = gathering.count
  count_le : gathering.count ≤ reply.length
  buffer : gathering.buffer = gathering.log.taken ++ reply.drop gathering.count
  silence : ∀ silence found, .look silence found ∈ gathering.log → silence ≤ receiveIdle
  faithful : gathering.log.Faithful start gathering.ring

namespace Gathered

variable {start rest : Ring} {reply : List UInt8} {gathering : Gathering}

theorem length_buffer (gathered : Gathered start reply gathering) :
    gathering.buffer.length = reply.length := by
  have hCount := gathered.count_le
  rw [gathered.buffer, List.length_append, gathered.count, List.length_drop]
  omega

/-- What finds no byte changes nothing but the ring and the log. -/
theorem note (gathered : Gathered start reply gathering) (event : Event)
    (hNone : event.found? = none)
    (hFound : ∀ silence found, event = .look silence found →
      found = gathering.ring.pop.1 ∧ silence ≤ receiveIdle)
    (silence : Nat) :
    Gathered start reply
      { gathering with
        ring := event.call?.elim gathering.ring gathering.ring.step
        silence
        log := gathering.log ++ [event] } := by
  have hTaken : Log.taken (gathering.log ++ [event]) = gathering.log.taken := by
    simp [hNone]
  refine ⟨?_, gathered.count_le, ?_, fun other found hMem => ?_, ?_⟩
  · rw [hTaken, gathered.count]
  · rw [hTaken, gathered.buffer]
  · rcases List.mem_append.mp hMem with hBefore | hLast
    · exact gathered.silence other found hBefore
    · exact (hFound other found (List.mem_singleton.mp hLast).symm).2
  · exact gathered.faithful.concat fun other found hEvent => (hFound other found hEvent).1

/-- Bytes that come in during the loop change nothing of what was gathered. -/
theorem arrive (gathered : Gathered start reply gathering) (bytes : List UInt8) :
    Gathered start reply (gathering.arrive bytes) := by
  induction bytes generalizing gathering with
  | nil => simpa [Gathering.arrive, Ring.pushAll] using gathered
  | cons byte bytes ih =>
      have hFirst := gathered.note (.came byte) rfl nofun gathering.silence
      simpa [Gathering.arrive, Ring.pushAll, Event.call?, Ring.step] using ih hFirst

/-- A look in vain gathers nothing. -/
theorem miss (gathered : Gathered start reply gathering) (hPop : gathering.ring.pop = (none, rest))
    (hSilence : gathering.silence ≤ receiveIdle) :
    Gathered start reply (gathering.miss rest) := by
  have hNote := gathered.note (.look gathering.silence none) rfl
    (by rintro _ _ ⟨⟩; exact ⟨by rw [hPop], hSilence⟩) gathering.silence
  have hRest : gathering.ring.pop.2 = rest := by rw [hPop]
  rw [← hRest]
  exact hNote

/-- A byte is put where the buffer still has what it had before. -/
theorem kept (gathered : Gathered start reply gathering) (hMore : gathering.count < reply.length)
    {byte : UInt8} (hPop : gathering.ring.pop = (some byte, rest))
    (hSilence : gathering.silence ≤ receiveIdle) :
    Gathered start reply (gathering.kept byte rest) := by
  have hTaken : Log.taken (gathering.log ++ [.look gathering.silence (some byte)]) =
      gathering.log.taken ++ [byte] := Log.taken_append ..
  refine ⟨?_, hMore, ?_, fun silence found hMem => ?_, ?_⟩
  · rw [Gathering.kept, hTaken, List.length_append, gathered.count]
    rfl
  · rw [Gathering.kept, hTaken, gathered.buffer,
      List.set_append_right _ _ (Nat.le_of_eq gathered.count), gathered.count, Nat.sub_self,
      List.drop_eq_getElem_cons hMore, List.set_cons_zero, List.append_cons]
  · rcases List.mem_append.mp hMem with hBefore | hLast
    · exact gathered.silence silence found hBefore
    · cases List.mem_singleton.mp hLast
      exact hSilence
  · have hRest : gathering.ring.pop.2 = rest := by rw [hPop]
    rw [← hRest]
    exact gathered.faithful.concat (by rintro _ _ ⟨⟩; rw [hPop])

end Gathered

/-- The bridge is still collecting, and `looks` looks in a row have found nothing. -/
structure Collecting (start : Ring) (reply : List UInt8) (looks : Nat) (gathering : Gathering) :
    Prop extends Gathered start reply gathering where
  deeds : ∃ before : Log, before.Fresh ∧ gathering.log.deeds = before ++ Log.empty looks
  silence_eq : gathering.silence = 10 * looks
  looks_le : looks ≤ 130
  wanting : looks = 0 ∨ gathering.count < reply.length
  waited : gathering.log.waited ≤ 1300 * gathering.count + 10 * looks

/-- The bridge is done, because the buffer is full or because it gave up. -/
structure Collected (start : Ring) (reply : List UInt8) (gathering : Gathering) : Prop
    extends Gathered start reply gathering where
  ends : gathering.count = reply.length ∧ gathering.log.deeds.Fresh ∨
    gathering.count < reply.length ∧
      ∃ before : Log, before.Fresh ∧ gathering.log.deeds = before ++ Log.quiet
  waited : gathering.log.waited ≤ 1300 * (gathering.count + 1)

namespace Collecting

variable {start rest : Ring} {reply : List UInt8} {looks : Nat} {gathering : Gathering}

/-- Before the first look nothing was gathered and nothing waited for. -/
theorem initial (start : Ring) (reply : List UInt8) :
    Collecting start reply 0 { ring := start, buffer := reply } where
  count := rfl
  count_le := Nat.zero_le _
  buffer := rfl
  silence := nofun
  faithful := ⟨rfl, fun past silence found h => by simp at h⟩
  deeds := ⟨[], .inl rfl, rfl⟩
  silence_eq := rfl
  looks_le := by decide
  wanting := .inl rfl
  waited := Nat.le_refl _

theorem arrive (collecting : Collecting start reply looks gathering) (bytes : List UInt8) :
    Collecting start reply looks (gathering.arrive bytes) := by
  refine ⟨collecting.toGathered.arrive bytes, ?_, collecting.silence_eq, collecting.looks_le,
    collecting.wanting, ?_⟩
  · simpa [Gathering.arrive] using collecting.deeds
  · simpa [Gathering.arrive] using collecting.waited

/-- The loop never counts more silence than it waits for. -/
theorem silence_le (collecting : Collecting start reply looks gathering) :
    gathering.silence ≤ receiveIdle := by
  have hLooks := collecting.looks_le
  rw [collecting.silence_eq]
  exact Nat.mul_le_mul_left 10 hLooks

/-- A byte that is found ends the silence. -/
theorem kept (collecting : Collecting start reply looks gathering)
    (hMore : gathering.count < reply.length) {byte : UInt8}
    (hPop : gathering.ring.pop = (some byte, rest)) :
    Collecting start reply 0 (gathering.kept byte rest) := by
  have hLooks := collecting.looks_le
  have hWaited := collecting.waited
  refine ⟨collecting.toGathered.kept hMore hPop collecting.silence_le, ?_, rfl, by decide, .inl rfl,
    ?_⟩
  · refine ⟨(gathering.kept byte rest).log.deeds, .inr ⟨gathering.log.deeds, gathering.silence,
      byte, ?_⟩, (List.append_nil _).symm⟩
    rw [Gathering.kept, Log.deeds_append]
    rfl
  · simp only [Gathering.kept, Log.waited_append, Log.waited_cons, Log.waited_nil, Event.micros]
    omega

/-- A delay follows a look that found nothing while there was less silence. -/
theorem paused (collecting : Collecting start reply looks gathering)
    (hMore : gathering.count < reply.length) (hPop : gathering.ring.pop = (none, rest))
    (hIdle : ¬receiveIdle ≤ gathering.silence) :
    Collecting start reply (looks + 1) (gathering.miss rest).paused := by
  have hLimit : receiveIdle = 1300 := rfl
  have hSilence := collecting.silence_eq
  have hWaited := collecting.waited
  obtain ⟨before, hFresh, hDeeds⟩ := collecting.deeds
  have hMissed := collecting.toGathered.miss hPop collecting.silence_le
  have hPaused := hMissed.note (.delay pollDelay) rfl nofun (gathering.silence + pollDelay)
  refine ⟨hPaused, ⟨before, hFresh, ?_⟩, ?_, by omega, .inr hMore, ?_⟩
  · rw [Gathering.paused, Gathering.miss, Log.deeds_append, Log.deeds_append, hDeeds, hSilence,
      Log.empty_succ, List.append_assoc, List.append_assoc, List.append_assoc]
    rfl
  · rw [Gathering.paused, Gathering.miss, hSilence]
    rfl
  · simp only [Gathering.paused, Gathering.miss, Log.waited_append, Log.waited_cons, Log.waited_nil,
      Event.micros, pollDelay]
    omega

/-- The bridge gives up after so much silence. -/
theorem giveUp (collecting : Collecting start reply looks gathering)
    (hMore : gathering.count < reply.length) (hPop : gathering.ring.pop = (none, rest))
    (hIdle : receiveIdle ≤ gathering.silence) : Collected start reply (gathering.miss rest) := by
  have hLimit : receiveIdle = 1300 := rfl
  have hSilence := collecting.silence_eq
  have hLooks : looks = 130 := by
    have hLe := collecting.looks_le
    omega
  subst hLooks
  obtain ⟨before, hFresh, hDeeds⟩ := collecting.deeds
  refine ⟨collecting.toGathered.miss hPop collecting.silence_le,
    .inr ⟨hMore, before, hFresh, ?_⟩, ?_⟩
  · rw [Gathering.miss, Log.deeds_append, hDeeds, hSilence, List.append_assoc]
    rfl
  · rw [Gathering.miss, Log.waited_append]
    exact collecting.waited

/-- The bridge is done after so many more rounds, whatever comes in and when. -/
theorem collect (collecting : Collecting start reply looks gathering)
    (hSize : reply.length < UInt32.size) (schedule : Schedule) {rounds : Nat}
    (hRounds : 131 * (reply.length - gathering.count) + 131 ≤ rounds + looks) :
    ∃ after, gathering.collect schedule rounds = .ok after ∧ Collected start reply after := by
  induction rounds generalizing gathering looks with
  | zero =>
      have hLooks := collecting.looks_le
      omega
  | succ rounds ih =>
      have hLength := collecting.toGathered.length_buffer
      by_cases hMore : gathering.count < reply.length
      · have hRoom : gathering.count < gathering.buffer.length := hLength ▸ hMore
        have arrived := collecting.arrive (schedule gathering.log)
        rcases hPop : (gathering.arrive (schedule gathering.log)).ring.pop with ⟨_ | byte, rest⟩
        · by_cases hIdle : receiveIdle ≤ gathering.silence
          · exact ⟨_, Gathering.collect_idle hRoom hPop hIdle rounds,
              arrived.giveUp hMore hPop hIdle⟩
          · rw [Gathering.collect_wait hRoom hPop hIdle]
            exact ih (arrived.paused hMore hPop hIdle) (by
              simp only [Gathering.paused, Gathering.miss, Gathering.arrive]
              omega)
        · have hLooks := collecting.looks_le
          rw [Gathering.collect_some (hLength ▸ hSize) hRoom hPop]
          exact ih (arrived.kept hMore hPop) (by
            simp only [Gathering.kept, Gathering.arrive]
            omega)
      · -- nothing was looked for since the buffer became full
        obtain ⟨before, hFresh, hDeeds⟩ := collecting.deeds
        have hLooks : looks = 0 := collecting.wanting.resolve_right hMore
        have hCount := collecting.count_le
        have hWaited := collecting.waited
        subst hLooks
        refine ⟨gathering, Gathering.collect_full (hLength ▸ hMore) rounds,
          collecting.toGathered, .inl ⟨by omega, ?_⟩, by omega⟩
        rw [hDeeds]
        exact (List.append_nil before).symm ▸ hFresh

end Collecting

end Multidrop.Bridge
