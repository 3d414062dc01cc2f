import Multidrop.Node.Attached
import Multidrop.Proofs.Node.Utterance

/-!
A half-duplex line. A node takes the line once in an execution, before its first bytes, and gives it
back after it asked for them to be flushed. A transceiver that obeys never drives the line and
listens to it at the same time, writes only after the others had time to release the line, and
releases it only after its serial unit was told to flush what was written. What was written is out
by then if that flush does what it is told; one that fails is not tried again, and the line is
released all the same.
-/

namespace Multidrop

namespace Line

/-- How far a node has come in what it says. -/
inductive Phase where
  | resting
  | taken
  | spoken
  | flushed
  deriving DecidableEq

namespace Phase

/-- What a call leads to, where it may be made at all. The timer may be used at any time. -/
def next? : Phase → Call → Option Phase
  | phase, .restartTimer | phase, .stopTimer => some phase
  | .resting, .transmit => some .taken
  | .taken, .write _ | .spoken, .write _ => some .spoken
  | .spoken, .flush => some .flushed
  | .flushed, .receive => some .resting
  | _, _ => none

/-- The timer has no part in how far a node has come. -/
theorem foldlM_talk (phase : Phase) (calls : List Call) :
    (calls.filter Call.talks).foldlM next? phase = calls.foldlM next? phase := by
  induction calls generalizing phase with
  | nil => rfl
  | cons call rest ih =>
      cases hTalks : call.talks with
      | true =>
          rw [List.filter_cons_of_pos hTalks, List.foldlM_cons, List.foldlM_cons]
          exact congrArg _ (funext ih)
      | false =>
          have hSame : phase.next? call = some phase := by cases call <;> simp_all [Call.talks, next?]
          rw [List.filter_cons_of_neg (by simp [hTalks]), List.foldlM_cons, hSame]
          exact ih phase

/-- Any number of writes is allowed once the line is taken. -/
theorem foldlM_writes (pieces : List (List UInt8)) :
    (pieces.map .write).foldlM next? spoken = some spoken := by
  induction pieces with
  | nil => rfl
  | cons piece rest ih => exact ih

end Phase

/-- After an utterance the line is at rest, as it was before. -/
theorem Utterance.phase {said : List Call} (utterance : Utterance said) :
    said.foldlM Phase.next? .resting = some .resting := by
  cases utterance with
  | silent => rfl
  | spoken first rest =>
      have hWrites : (((first :: rest).map .write).foldlM Phase.next? Phase.taken) = some .spoken :=
        Phase.foldlM_writes rest
      change ((first :: rest).map Call.write ++ [Call.flush, Call.receive]).foldlM Phase.next?
        Phase.taken = _
      rw [List.foldlM_append, hWrites]
      rfl

/-- So it is after several utterances. -/
theorem phase_utterances {said : List (List Call)} (h : ∀ one ∈ said, Utterance one) :
    said.flatten.foldlM Phase.next? .resting = some .resting := by
  induction said with
  | nil => rfl
  | cons one rest ih =>
      obtain ⟨hOne, hRest⟩ := List.forall_mem_cons.mp h
      rw [List.flatten_cons, List.foldlM_append, hOne.phase]
      exact ih hRest

end Line

namespace Transceiver

/-- How the signals given so far leave the parts that share the line. -/
structure Posture where
  /-- Whether the driver is enabled. -/
  driver : Bool
  /-- Whether the receiver is enabled. -/
  receiver : Bool
  /-- The nanoseconds waited since the driver was enabled. -/
  waited : Nat
  /-- Whether the serial unit was given something to write and not told to flush it since. -/
  unflushed : Bool

/-- What a signal does. A pin that fails stays as it is. A flush that fails was told to the serial
unit too, which is all that whoever releases the line goes by. -/
def Posture.after (posture : Posture) (entry : Entry) : Posture :=
  match entry.signal with
  | .driver high => if entry.failed then posture else { posture with driver := high, waited := 0 }
  | .receiver high => if entry.failed then posture else { posture with receiver := !high }
  | .delay nanoseconds => { posture with waited := posture.waited + nanoseconds }
  | .uartWrite _ | .uartFull => { posture with unflushed := true }
  | .uartFlush => { posture with unflushed := false }
  | .timerRestart | .timerStop => posture

/-- Whether a signal is in order: the serial unit writes while the driver is enabled and has been
for the time the others are given, and the driver is released when the unit was told to flush all
that it was given. -/
def Entry.Proper (posture : Posture) (entry : Entry) : Prop :=
  match entry.signal with
  | .uartWrite _ | .uartFull => posture.driver = true ∧ turnaround * 1000 ≤ posture.waited
  | .driver false => posture.unflushed = false
  | _ => True

/-- Every signal is in order, and none leaves driver and receiver both enabled. -/
def Disciplined : Posture → List Entry → Prop
  | _, [] => True
  | posture, entry :: rest =>
    entry.Proper posture ∧ ¬((posture.after entry).driver ∧ (posture.after entry).receiver) ∧
      Disciplined (posture.after entry) rest

/-- Signals are in order one part after the other, from the posture that the first part leaves. -/
theorem disciplined_append (posture : Posture) (first second : List Entry) :
    Disciplined posture (first ++ second) ↔
      Disciplined posture first ∧ Disciplined (first.foldl .after posture) second := by
  induction first generalizing posture with
  | nil => simp [Disciplined]
  | cons entry rest ih => simp [Disciplined, ih, and_assoc]

/-- The posture in which a transceiver has to be for a node that has come so far. -/
inductive Fits : Line.Phase → Posture → Prop where
  | resting {waited : Nat} : Fits .resting ⟨false, true, waited, false⟩
  | taken {waited : Nat} (hWaited : turnaround * 1000 ≤ waited) :
      Fits .taken ⟨true, false, waited, false⟩
  | spoken {waited : Nat} (hWaited : turnaround * 1000 ≤ waited) (unflushed : Bool) :
      Fits .spoken ⟨true, false, waited, unflushed⟩
  | flushed {waited : Nat} : Fits .flushed ⟨true, false, waited, false⟩

/-- The pins of a transceiver do what they are told. -/
def Obeys (fails : Signal → Bool) : Prop :=
  ∀ high, fails (.driver high) = false ∧ fails (.receiver high) = false

/-- Between two states of a transceiver its parts were given these signals. -/
structure Gave (before after : Transceiver) (entries : List Entry) : Prop where
  fails : after.fails = before.fails
  journal : after.journal.toList = before.journal.toList ++ entries

theorem Gave.refl (parts : Transceiver) : Gave parts parts [] :=
  ⟨rfl, by simp⟩

/-- What was given first and then is given one after the other. -/
theorem Gave.trans {first second third : Transceiver} {entries more : List Entry}
    (left : Gave first second entries) (right : Gave second third more) :
    Gave first third (entries ++ more) :=
  ⟨right.fails.trans left.fails, by rw [right.journal, left.journal, List.append_assoc]⟩

/-- A signal is given and noted, whether it fails or not. -/
theorem gave_signal (parts : Transceiver) (signal : Signal) :
    Gave parts (parts.signal signal) [⟨signal, parts.fails signal⟩] :=
  ⟨rfl, by simp [Transceiver.signal]⟩

/-- A write is some signals to the serial unit, and nothing else. -/
theorem gave_write (parts : Transceiver) (bytes : List UInt8) :
    ∃ entries, Gave parts (parts.write bytes) entries ∧
      ∀ entry ∈ entries, (∃ piece, entry.signal = .uartWrite piece) ∨ entry.signal = .uartFull := by
  induction parts, bytes using write.induct with
  | case1 parts bytes hNone =>
      rw [write, if_pos hNone]
      exact ⟨[], .refl parts, by simp⟩
  | case2 parts bytes hSome piece hFull =>
      rw [write, if_neg hSome, if_pos hFull]
      exact ⟨_, gave_signal parts .uartFull, by simp⟩
  | case3 parts bytes hSome piece hTaken hFails =>
      rw [write, if_neg hSome, if_neg hTaken, if_pos hFails]
      exact ⟨_, ⟨rfl, (gave_signal _ (.uartWrite piece)).journal⟩, by simp⟩
  | case4 parts bytes hSome piece hTaken next hFails ih =>
      obtain ⟨entries, hGave, hUart⟩ := ih
      have hFirst : Gave parts next [⟨.uartWrite piece, parts.fails (.uartWrite piece)⟩] :=
        ⟨rfl, (gave_signal _ (.uartWrite piece)).journal⟩
      rw [write, if_neg hSome, if_neg hTaken, if_neg hFails]
      exact ⟨_, hFirst.trans hGave, by simpa using hUart⟩

/-- While the line is driven, writing is in order. -/
theorem disciplined_uart {entries : List Entry} {waited : Nat} (hWaited : turnaround * 1000 ≤ waited)
    (hUart : ∀ entry ∈ entries,
      (∃ piece, entry.signal = .uartWrite piece) ∨ entry.signal = .uartFull)
    (unflushed : Bool) :
    Disciplined ⟨true, false, waited, unflushed⟩ entries ∧
      Fits .spoken (entries.foldl .after ⟨true, false, waited, unflushed⟩) := by
  induction entries generalizing unflushed with
  | nil => exact ⟨trivial, .spoken hWaited unflushed⟩
  | cons entry rest ih =>
      obtain ⟨hEntry, hRest⟩ := List.forall_mem_cons.mp hUart
      obtain ⟨signal, failed⟩ := entry
      obtain ⟨hDisciplined, hFits⟩ := ih hRest true
      rcases hEntry with ⟨piece, rfl⟩ | rfl
      · exact ⟨⟨⟨rfl, hWaited⟩, by simp [Posture.after], hDisciplined⟩, hFits⟩
      · exact ⟨⟨⟨rfl, hWaited⟩, by simp [Posture.after], hDisciplined⟩, hFits⟩

/-- A call that a node may make is carried out in good order. -/
theorem disciplined_perform {parts : Transceiver} (obeys : Obeys parts.fails)
    {phase next : Line.Phase} {call : Line.Call} (hNext : phase.next? call = some next)
    {posture : Posture} (fits : Fits phase posture) :
    ∃ entries, Gave parts (parts.perform call) entries ∧ Disciplined posture entries ∧
      Fits next (entries.foldl .after posture) := by
  have hDriver (high : Bool) : parts.fails (.driver high) = false := (obeys high).1
  have hReceiver (high : Bool) : parts.fails (.receiver high) = false := (obeys high).2
  cases call with
  | restartTimer =>
      cases fits <;> cases hNext <;>
        exact ⟨_, gave_signal parts .timerRestart, by simp [Disciplined, Entry.Proper, Posture.after],
          by constructor <;> assumption⟩
  | stopTimer =>
      cases fits <;> cases hNext <;>
        exact ⟨_, gave_signal parts .timerStop, by simp [Disciplined, Entry.Proper, Posture.after],
          by constructor <;> assumption⟩
  | transmit =>
      cases fits <;> cases hNext
      refine ⟨_, ((gave_signal parts (.receiver true)).trans (gave_signal _ (.driver true))).trans
        (gave_signal _ (.delay (turnaround * 1000))), ?_, ?_⟩
      · simp [Disciplined, Entry.Proper, Posture.after, Transceiver.signal, hDriver, hReceiver]
      · simp only [List.cons_append, List.nil_append, List.foldl_cons, List.foldl_nil,
          Posture.after, Transceiver.signal, hDriver, hReceiver, Bool.false_eq_true, if_false,
          Bool.not_true]
        exact .taken (Nat.le_add_left ..)
  | write bytes =>
      obtain ⟨entries, hGave, hUart⟩ := parts.gave_write bytes
      cases fits with
      | taken hWaited =>
          cases hNext
          exact ⟨entries, hGave, disciplined_uart hWaited hUart false⟩
      | spoken hWaited unflushed =>
          cases hNext
          exact ⟨entries, hGave, disciplined_uart hWaited hUart unflushed⟩
      | resting => cases hNext
      | flushed => cases hNext
  | flush =>
      cases fits <;> cases hNext
      exact ⟨_, gave_signal parts .uartFlush, by simp [Disciplined, Entry.Proper, Posture.after],
        .flushed⟩
  | receive =>
      cases fits <;> cases hNext
      refine ⟨_, (gave_signal parts (.driver false)).trans (gave_signal _ (.receiver false)), ?_, ?_⟩
      · simp [Disciplined, Entry.Proper, Posture.after, Transceiver.signal, hDriver, hReceiver]
      · simp only [List.cons_append, List.nil_append, List.foldl_cons, List.foldl_nil,
          Posture.after, Transceiver.signal, hDriver, hReceiver, Bool.false_eq_true, if_false,
          Bool.not_false]
        exact .resting

/-- Calls that a node may make one after the other are carried out in good order. -/
theorem disciplined_calls {parts : Transceiver} (obeys : Obeys parts.fails)
    {phase next : Line.Phase} {calls : List Line.Call}
    (hNext : calls.foldlM Line.Phase.next? phase = some next) {posture : Posture}
    (fits : Fits phase posture) :
    ∃ entries, Gave parts (calls.foldl perform parts) entries ∧ Disciplined posture entries ∧
      Fits next (entries.foldl .after posture) := by
  induction calls generalizing parts phase posture with
  | nil =>
      cases hNext
      exact ⟨[], .refl parts, trivial, fits⟩
  | cons call rest ih =>
      rw [List.foldlM_cons] at hNext
      obtain ⟨between, hCall, hRest⟩ := Option.bind_eq_some_iff.mp hNext
      obtain ⟨entries, hGave, hDisciplined, hFits⟩ := disciplined_perform obeys hCall fits
      obtain ⟨more, hMoreGave, hMore, hEnd⟩ := ih (hGave.fails ▸ obeys) hRest hFits
      refine ⟨entries ++ more, hGave.trans hMoreGave, ?_, ?_⟩
      · exact (disciplined_append posture entries more).mpr ⟨hDisciplined, hMore⟩
      · rwa [List.foldl_append]

/-- Whatever its pins were before, a transceiver that was just put together listens. -/
theorem fits_start {fails : Signal → Bool} (obeys : Obeys fails) (chunk room : Option Nat)
    (driver receiver : Bool) :
    Fits .resting ((start fails chunk room).journal.toList.foldl .after ⟨driver, receiver, 0, false⟩) := by
  have hDriver : fails (.driver false) = false := (obeys false).1
  have hReceiver : fails (.receiver false) = false := (obeys false).2
  simp only [start, perform, signal, hDriver, hReceiver]
  exact .resting

/-- A transceiver at rest is not both driving the line and listening to it. -/
theorem Fits.exclusive {phase : Line.Phase} {posture : Posture} (fits : Fits phase posture) :
    ¬(posture.driver ∧ posture.receiver) := by
  cases fits <;> simp

end Transceiver

namespace Attached

variable {C : Type} [CommandSet C]

/-- Something happens to an attached node. -/
def step (attached : Attached C) : Node.Event → Attached C
  | .poll => attached.poll.2
  | event => attached.mapNode (·.step event)

/-- Several things happen to an attached node, in order. -/
def run (attached : Attached C) (events : List Node.Event) : Attached C :=
  events.foldl step attached

theorem step_eq (attached : Attached C) (event : Node.Event) :
    attached.step event = attached.mapNode (·.step event) := by
  cases event <;> rfl

/-- A node attached through a transceiver, between two events: it has carried out what the node
asked for, and the line is at rest. -/
structure AtRest (attached : Attached C) (first : List Transceiver.Entry)
    (posture : Transceiver.Posture) : Prop where
  settled : attached.node.link.value.trace = #[]
  obeyed : ∃ parts rest, attached.adapter = .transceiver parts ∧ Transceiver.Obeys parts.fails ∧
    parts.journal.toList = first ++ rest ∧ Transceiver.Disciplined posture rest ∧
    Transceiver.Fits .resting (rest.foldl .after posture)

/-- Whatever happens to a node, it leaves its transceiver at rest and in good order. -/
theorem AtRest.step {attached : Attached C} {first : List Transceiver.Entry}
    {posture : Transceiver.Posture} (atRest : AtRest attached first posture) (event : Node.Event) :
    AtRest (attached.step event) first posture := by
  obtain ⟨node, adapter, timer, sent⟩ := attached
  obtain ⟨hTrace, parts, rest, rfl, obeys, hJournal, hDisciplined, fits⟩ := atRest
  obtain ⟨⟨calls, hCalls, hTalk⟩, hFree⟩ := node.talked_step event
  dsimp only at hTrace
  rw [hTrace, Array.empty_append] at hCalls
  have hPhase : calls.toList.foldlM Line.Phase.next? .resting = some .resting := by
    rw [← Line.Phase.foldlM_talk]
    change calls.talk.foldlM Line.Phase.next? .resting = some .resting
    rw [hTalk, List.flatMap_def]
    refine Line.phase_utterances fun said hSaid => ?_
    obtain ⟨execution, hMem, rfl⟩ := List.mem_map.mp hSaid
    exact (Execution.trace_link (hFree execution hMem)).2
  obtain ⟨entries, hGave, hEntries, hEnd⟩ := Transceiver.disciplined_calls obeys hPhase fits
  rw [step_eq]
  refine ⟨rfl, (node.step event).link.value.trace.foldl Transceiver.perform parts, rest ++ entries,
    rfl, ?_, ?_, ?_, ?_⟩
  · rw [hCalls, ← Array.foldl_toList, hGave.fails]
    exact obeys
  · rw [hCalls, ← Array.foldl_toList, hGave.journal, hJournal, List.append_assoc]
  · exact (Transceiver.disciplined_append posture rest entries).mpr ⟨hDisciplined, hEntries⟩
  · rwa [List.foldl_append]

/-- So it is after everything that happens. -/
theorem AtRest.run {attached : Attached C} {first : List Transceiver.Entry}
    {posture : Transceiver.Posture} (atRest : AtRest attached first posture)
    (events : List Node.Event) : AtRest (attached.run events) first posture := by
  induction events generalizing attached with
  | nil => exact atRest
  | cons event rest ih => exact ih (atRest.step event)

end Attached

/-- A node talks on the line while it executes a request and not otherwise, and then takes the line
once, writes, flushes and gives it back; so it is too when interrupts come in the middle of a call,
once the main loop is back from it. Over a transceiver whose pins do not fail, whatever they were
before, and however its serial unit takes what is written, driver and receiver are never both
enabled from the construction on, nothing is written before the driver was enabled for the time the
others are given, and the driver is released only after the serial unit was told to flush, after the
last write. -/
theorem half_duplex {C : Type} [CommandSet C] (commands : C) (address : UInt8)
    (events : List Node.Event) :
    let node := Node.start commands address
    ((node.run events).link.value.trace.talk =
        (node.executions events).flatMap (·.calls.talk) ∧
      ∀ execution ∈ node.executions events, Line.Utterance execution.calls.talk) ∧
    (∀ moves : List Move,
      let begun := Interleaved.start commands address
      (∀ execution ∈ begun.executions moves, Line.Utterance execution.calls.talk) ∧
        ((begun.run moves).stage = .away → (begun.run moves).node.link.value.trace.talk =
          (begun.executions moves).flatMap (·.calls.talk))) ∧
    ∀ (fails : Transceiver.Signal → Bool) (chunk room : Option Nat), Transceiver.Obeys fails →
      ∀ driver receiver : Bool,
        let parts := Transceiver.start fails chunk room
        let first := parts.journal.toList
        let posture := first.foldl .after ⟨driver, receiver, 0, false⟩
        ¬(posture.driver ∧ posture.receiver) ∧
          ∃ (after : Transceiver) (rest : List Transceiver.Entry),
            ((Attached.start node (.transceiver parts)).run events).adapter = .transceiver after ∧
              after.journal.toList = first ++ rest ∧ Transceiver.Disciplined posture rest := by
  intro node
  have hCalls (events : List Node.Event) :
      (node.run events).link.value.trace.talk = (node.executions events).flatMap (·.calls.talk) ∧
        ∀ execution ∈ node.executions events, Line.Utterance execution.calls.talk := by
    obtain ⟨⟨calls, hTrace, hTalk⟩, hUtterances⟩ := node.talked_run events
    have hStart : node.link.value.trace = #[] := rfl
    rw [hStart, Array.empty_append] at hTrace
    rw [hTrace]
    exact ⟨hTalk, hUtterances⟩
  refine ⟨hCalls events, ?_, ?_⟩
  · intro moves begun
    obtain ⟨others, hExecutions, hNode⟩ := Interleaved.exists_run commands address moves
    obtain ⟨hTalk, hUtterances⟩ := hCalls others
    rw [hExecutions]
    exact ⟨hUtterances, fun hAway => hNode hAway ▸ hTalk⟩
  · intro fails chunk room obeys driver receiver parts first posture
    have fits : Transceiver.Fits .resting posture :=
      Transceiver.fits_start obeys chunk room driver receiver
    have atRest : (Attached.start node (.transceiver parts)).AtRest first posture :=
      ⟨rfl, parts, [], rfl, obeys, (List.append_nil _).symm, trivial, fits⟩
    obtain ⟨_, after, rest, hAdapter, _, hJournal, hDisciplined, _⟩ := atRest.run events
    exact ⟨fits.exclusive, after, rest, hAdapter, hJournal, hDisciplined⟩

/-- A ping is answered with one byte, through a transceiver whose timer fails. -/
theorem half_duplex_ping :
    let commands : Scripted :=
      ⟨⟨#[], [], [], [], #[]⟩, {}, [(.ping, .execute)], [(.ping, [.send [1]])], #[]⟩
    let fails : Transceiver.Signal → Bool := (· == .timerStop)
    let node := Node.start commands 5
    let events : List Node.Event := [5, 0, 5, 1].map .byte ++ [.poll]
    let moves : List Move := [5, 0, 5, 1].map .byte ++ .poll :: .replicate 5 .proceed
    let parts := Transceiver.start fails none none
    let first := parts.journal.toList
    let posture := first.foldl .after ⟨true, true, 0, false⟩
    let state := (Interleaved.start commands 5).run moves
    Transceiver.Obeys fails ∧
      (node.run events).link.value.trace.talk = [.transmit, .write [1], .flush, .receive] ∧
      (state.stage = .away ∧ state.node.link.value.trace.talk =
        ((Interleaved.start commands 5).executions moves).flatMap (·.calls.talk)) ∧
      ∃ after rest,
        ((Attached.start node (.transceiver parts)).run events).adapter = .transceiver after ∧
          after.journal.toList = first ++ rest ∧ Transceiver.Disciplined posture rest := by
  intro commands fails node events moves parts first posture state
  have obeys : Transceiver.Obeys fails := fun high => by cases high <;> decide
  have hAway : state.stage = .away := by decide
  obtain ⟨_, hMoves, hLine⟩ := half_duplex commands 5 events
  exact ⟨obeys, by decide, ⟨hAway, (hMoves moves).2 hAway⟩, (hLine fails none none obeys true true).2⟩

end Multidrop
