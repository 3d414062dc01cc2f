import Multidrop.Bridge

/-!
A bridge at work, one step at a time. The interrupt puts a byte into the ring whenever one comes,
between any two steps of the bridge: while it drives the line, between two looks at the ring and
while it has no packet to handle. A call that handles a whole packet is a run of such steps, in
which bytes come only where the call says.
-/

namespace Multidrop.Bridge

section Collect

variable {arrivals : Nat → List UInt8} {want silence delays : Nat} {ring rest : Ring}

theorem collect_full (arrivals : Nat → List UInt8) (silence delays : Nat) (ring : Ring) :
    collect arrivals 0 silence delays ring = ([], delays, ring) := by
  rw [collect, if_pos rfl]

/-- A byte that is there is taken, and the silence begins anew. -/
theorem collect_some {byte : UInt8} (hWant : ¬want = 0) (hPop : ring.pop = (some byte, rest)) :
    collect arrivals want silence delays ring =
      (byte :: (collect arrivals (want - 1) 0 delays rest).1,
        (collect arrivals (want - 1) 0 delays rest).2) := by
  rw [collect, if_neg hWant, hPop]

/-- After enough silence the bridge waits no longer. -/
theorem collect_idle (hWant : ¬want = 0) (hPop : ring.pop = (none, rest))
    (hIdle : receiveIdle ≤ silence) :
    collect arrivals want silence delays ring = ([], delays, rest) := by
  rw [collect, if_neg hWant, hPop]
  exact if_pos hIdle

/-- Before that it waits a moment more, in which bytes may come in. -/
theorem collect_wait (hWant : ¬want = 0) (hPop : ring.pop = (none, rest))
    (hIdle : ¬receiveIdle ≤ silence) :
    collect arrivals want silence delays ring =
      collect arrivals want (silence + pollDelay) (delays + 1)
        (rest.pushAll (arrivals delays)) := by
  rw [collect, if_neg hWant, hPop]
  exact if_neg hIdle

end Collect

/-- Bytes to transmit take the line for as long as they need, and the ring is empty afterwards. -/
theorem handle_transmit (ring : Ring) (trace : Line.Trace) (data overheard : List UInt8)
    (arrivals : Nat → List UInt8) :
    handle ⟨ring, trace⟩ (transmitRequest :: data) overheard arrivals =
      (⟨none, 0⟩, ⟨(ring.pushAll overheard).clear,
        (((trace.push .transmit).push (.write data)).push .flush).push .receive⟩) := by
  simp only [handle, if_true]

/-- A packet for received bytes does to the bridge what collecting does to its ring. -/
theorem handle_receive {ring rest : Ring} {wanted : UInt8} {arrivals : Nat → List UInt8}
    {bytes : List UInt8} {delays : Nat}
    (h : collect arrivals (min wanted.toNat packetSize) 0 0 ring = (bytes, delays, rest))
    (trace : Line.Trace) (more overheard : List UInt8) :
    handle ⟨ring, trace⟩ (receiveRequest :: wanted :: more) overheard arrivals =
      (⟨some bytes, delays⟩, ⟨rest, trace⟩) := by
  unfold handle
  simp only [if_neg (by decide : ¬receiveRequest = transmitRequest), if_true, h]

/-- How far a bridge is with a packet of the host. -/
inductive Stage where
  /-- It has no packet. -/
  | away
  /-- It is about to take the line. -/
  | taking (data : List UInt8)
  /-- It has the line and is about to write. -/
  | writing (data : List UInt8)
  /-- It has written and waits until the last byte is on the line. -/
  | flushing
  /-- The last byte is on the line, and it is about to empty the ring. -/
  | clearing
  /-- It has emptied the ring and is about to release the line. -/
  | releasing
  /-- It is about to look into the ring, after so much silence, to take that many more bytes. -/
  | collecting (want silence : Nat) (taken : List UInt8)
  /-- It is about to answer. -/
  | answering (reply : Option (List UInt8))
  deriving DecidableEq

/-- What a packet is about, before anything is done for it. -/
def Stage.opening : List UInt8 → Stage
  | [] => .answering none
  | command :: data =>
    if command = transmitRequest then .taking data
    else if command = receiveRequest then
      match data with
      | [] => .answering none
      | wanted :: _ => .collecting (min wanted.toNat packetSize) 0 []
    else if command = echoRequest then .answering (some (data.take packetSize))
    else .answering none

/-- The kinds of packets, with what the bridge does for each of them. -/
inductive Packet : List UInt8 → Prop where
  | transmit (data : List UInt8) : Packet (transmitRequest :: data)
  | receive (wanted : UInt8) (more : List UInt8) : Packet (receiveRequest :: wanted :: more)
  /-- A packet that has nothing to do with the bus. -/
  | other {request : List UInt8} {reply : Option (List UInt8)}
      (opening : Stage.opening request = .answering reply)
      (handle : ∀ (bridge : Bridge) (overheard : List UInt8) (arrivals : Nat → List UInt8),
        bridge.handle request overheard arrivals = (⟨reply, 0⟩, bridge)) : Packet request

/-- Every packet is of one of these kinds. -/
theorem Packet.ofRequest (request : List UInt8) : Packet request := by
  rcases request with _ | ⟨command, data⟩
  · exact .other rfl fun _ _ _ => rfl
  · by_cases hTransmit : command = transmitRequest
    · exact hTransmit ▸ .transmit data
    · by_cases hReceive : command = receiveRequest
      · subst hReceive
        rcases data with _ | ⟨wanted, more⟩
        · exact .other rfl fun _ _ _ => rfl
        · exact .receive wanted more
      · by_cases hEcho : command = echoRequest
        · have hOpening : Stage.opening (command :: data) =
              .answering (some (data.take packetSize)) := by
            simp only [Stage.opening, if_neg hTransmit, if_neg hReceive, if_pos hEcho]
          refine .other hOpening fun bridge overheard arrivals => ?_
          simp only [handle, if_neg hTransmit, if_neg hReceive, if_pos hEcho]
        · have hOpening : Stage.opening (command :: data) = .answering none := by
            simp only [Stage.opening, if_neg hTransmit, if_neg hReceive, if_neg hEcho]
          refine .other hOpening fun bridge overheard arrivals => ?_
          simp only [handle, if_neg hTransmit, if_neg hReceive, if_neg hEcho]

/-- What the packets for received bytes got that a bridge is still at. -/
def Stage.inHand : Stage → List (List UInt8)
  | .collecting _ _ taken => [taken]
  | _ => []

/-- Something that happens at a bridge. -/
inductive Happening where
  /-- A byte came in from the bus. -/
  | came (byte : UInt8)
  | asked (request : List UInt8)
  /-- The bytes to transmit are on the line. -/
  | flushed
  /-- The ring was emptied after a flush: what came in till then is dropped. -/
  | cleared
  /-- The host got these received bytes. -/
  | gave (bytes : List UInt8)
  /-- The host got the answer to a packet that was not for received bytes, if it has one. -/
  | answered (reply : Option (List UInt8))
  deriving DecidableEq

/-- What comes in from the delay `first` on, before the delay `last`. -/
def during (arrivals : Nat → List UInt8) (first last : Nat) : List UInt8 :=
  (List.range' first (last - first)).flatMap arrivals

theorem during_self (arrivals : Nat → List UInt8) (delay : Nat) :
    during arrivals delay delay = [] := by
  rw [during, Nat.sub_self]
  rfl

theorem during_of_lt {arrivals : Nat → List UInt8} {first last : Nat} (h : first + 1 ≤ last) :
    during arrivals first last = arrivals first ++ during arrivals (first + 1) last := by
  have hCount : last - first = last - (first + 1) + 1 := by omega
  rw [during, hCount, List.range'_succ, List.flatMap_cons]
  rfl

/-- What comes in while a packet is handled in one go. -/
def incoming (request overheard : List UInt8) (arrivals : Nat → List UInt8) (delays : Nat) :
    List UInt8 :=
  if request.head? = some transmitRequest then overheard else during arrivals 0 delays

/-- What a packet gets of the bytes that came in, if that is what it is for. -/
def Answer.given (answer : Answer) (request : List UInt8) : List (List UInt8) :=
  if request.head? = some receiveRequest then answer.reply.toList else []

namespace Happening

def byte? : Happening → Option UInt8
  | came byte => some byte
  | _ => none

def given? : Happening → Option (List UInt8)
  | gave bytes => some bytes
  | _ => none

/-- What comes of a packet, once something does. -/
def reply? : Happening → Option (Option (List UInt8))
  | gave bytes => some (some bytes)
  | answered reply => some reply
  | _ => none

@[simp] theorem filterMap_byte?_came (bytes : List UInt8) :
    (bytes.map came).filterMap byte? = bytes := by
  rw [List.filterMap_map]
  exact List.filterMap_some

@[simp] theorem filterMap_given?_came (bytes : List UInt8) :
    (bytes.map came).filterMap given? = [] := by
  simp [given?]

@[simp] theorem filterMap_reply?_came (bytes : List UInt8) :
    (bytes.map came).filterMap reply? = [] := by
  simp [reply?]

end Happening

/-- One step of the interrupt, the host or the bridge. -/
inductive Move where
  | byte (byte : UInt8)
  /-- The host hands over a packet, if the bridge has none. -/
  | packet (request : List UInt8)
  /-- The bridge goes one step on with its packet. -/
  | proceed
  deriving DecidableEq

/-- A bridge at work, and all that has happened. -/
structure Working where
  bridge : Bridge
  stage : Stage := .away
  history : List Happening := []

namespace Working

/-- The next step of the bridge. A byte may come in after the flush has ended and before the ring is
emptied, and is dropped with the others. -/
def proceed : Working → Working
  | ⟨bridge, .away, history⟩ => ⟨bridge, .away, history⟩
  | ⟨⟨ring, trace⟩, .taking data, history⟩ =>
    ⟨⟨ring, trace.push .transmit⟩, .writing data, history⟩
  | ⟨⟨ring, trace⟩, .writing data, history⟩ =>
    ⟨⟨ring, trace.push (.write data)⟩, .flushing, history⟩
  | ⟨⟨ring, trace⟩, .flushing, history⟩ =>
    ⟨⟨ring, trace.push .flush⟩, .clearing, history ++ [.flushed]⟩
  | ⟨⟨ring, trace⟩, .clearing, history⟩ =>
    ⟨⟨ring.clear, trace⟩, .releasing, history ++ [.cleared]⟩
  | ⟨⟨ring, trace⟩, .releasing, history⟩ =>
    ⟨⟨ring, trace.push .receive⟩, .answering none, history⟩
  | ⟨⟨ring, trace⟩, .collecting want silence taken, history⟩ =>
    if want = 0 then ⟨⟨ring, trace⟩, .away, history ++ [.gave taken]⟩
    else
      match ring.pop with
      | (some byte, ring) => ⟨⟨ring, trace⟩, .collecting (want - 1) 0 (taken ++ [byte]), history⟩
      | (none, ring) =>
        if receiveIdle ≤ silence then ⟨⟨ring, trace⟩, .away, history ++ [.gave taken]⟩
        else ⟨⟨ring, trace⟩, .collecting want (silence + pollDelay) taken, history⟩
  | ⟨bridge, .answering reply, history⟩ => ⟨bridge, .away, history ++ [.answered reply]⟩

def step (working : Working) : Move → Working
  | .byte byte =>
    ⟨{ working.bridge with ring := working.bridge.ring.push byte }, working.stage,
      working.history ++ [.came byte]⟩
  | .packet request =>
    if working.stage = .away then
      ⟨working.bridge, .opening request, working.history ++ [.asked request]⟩
    else working
  | .proceed => working.proceed

def run (working : Working) (moves : List Move) : Working :=
  moves.foldl step working

section Collecting

variable {ring left : Ring} {trace : Line.Trace} {want silence : Nat} {taken : List UInt8}
  {history : List Happening}

theorem proceed_some {byte : UInt8} (hWant : ¬want = 0) (hPop : ring.pop = (some byte, left)) :
    proceed ⟨⟨ring, trace⟩, .collecting want silence taken, history⟩ =
      ⟨⟨left, trace⟩, .collecting (want - 1) 0 (taken ++ [byte]), history⟩ := by
  rw [proceed, if_neg hWant, hPop]

theorem proceed_idle (hWant : ¬want = 0) (hPop : ring.pop = (none, left))
    (hIdle : receiveIdle ≤ silence) :
    proceed ⟨⟨ring, trace⟩, .collecting want silence taken, history⟩ =
      ⟨⟨left, trace⟩, .away, history ++ [.gave taken]⟩ := by
  rw [proceed, if_neg hWant, hPop]
  exact if_pos hIdle

theorem proceed_wait (hWant : ¬want = 0) (hPop : ring.pop = (none, left))
    (hIdle : ¬receiveIdle ≤ silence) :
    proceed ⟨⟨ring, trace⟩, .collecting want silence taken, history⟩ =
      ⟨⟨left, trace⟩, .collecting want (silence + pollDelay) taken, history⟩ := by
  rw [proceed, if_neg hWant, hPop]
  exact if_neg hIdle

end Collecting

@[simp] theorem run_cons (working : Working) (move : Move) (moves : List Move) :
    working.run (move :: moves) = (working.step move).run moves :=
  rfl

theorem run_append (working : Working) (first second : List Move) :
    working.run (first ++ second) = (working.run first).run second :=
  List.foldl_append

/-- Bytes that come one after the other. -/
theorem run_bytes (ring : Ring) (trace : Line.Trace) (stage : Stage) (history : List Happening)
    (bytes : List UInt8) :
    (⟨⟨ring, trace⟩, stage, history⟩ : Working).run (bytes.map .byte) =
      ⟨⟨ring.pushAll bytes, trace⟩, stage, history ++ bytes.map .came⟩ := by
  induction bytes generalizing ring history with
  | nil => rw [List.map_nil, List.map_nil, List.append_nil]; rfl
  | cons byte rest ih =>
      rw [List.map_cons, run_cons, List.map_cons, List.append_cons]
      exact ih (ring.push byte) (history ++ [.came byte])

/-- To collect in one go is a run in which bytes come during the delays. -/
theorem exists_run_collect (arrivals : Nat → List UInt8) (trace : Line.Trace)
    (want silence delays : Nat) (ring : Ring) (taken : List UInt8) (history : List Happening)
    {bytes : List UInt8} {after : Nat} {rest : Ring}
    (h : collect arrivals want silence delays ring = (bytes, after, rest)) :
    delays ≤ after ∧ ∃ moves,
      (⟨⟨ring, trace⟩, .collecting want silence taken, history⟩ : Working).run moves =
        ⟨⟨rest, trace⟩, .away,
          history ++ (during arrivals delays after).map .came ++ [.gave (taken ++ bytes)]⟩ := by
  induction want, silence, delays, ring using collect.induct arrivals
    generalizing taken history bytes with
  | case1 silence delays ring =>
      rw [collect_full] at h
      cases h
      refine ⟨Nat.le_refl _, [.proceed], ?_⟩
      rw [during_self, List.map_nil, List.append_nil, List.append_nil]
      rfl
  | case2 want silence delays ring hWant byte left hPop more ends last hMore ih =>
      rw [collect_some hWant hPop, hMore] at h
      cases h
      obtain ⟨hLe, moves, hRun⟩ := ih (taken ++ [byte]) history hMore
      refine ⟨hLe, .proceed :: moves, ?_⟩
      rw [run_cons, step, proceed_some hWant hPop, hRun, List.append_assoc taken]
      rfl
  | case3 want silence delays ring hWant left hPop hIdle =>
      rw [collect_idle hWant hPop hIdle] at h
      cases h
      refine ⟨Nat.le_refl _, [.proceed], ?_⟩
      rw [run_cons, step, proceed_idle hWant hPop hIdle, during_self, List.map_nil, List.append_nil,
        List.append_nil]
      rfl
  | case4 want silence delays ring hWant left hPop hIdle ih =>
      rw [collect_wait hWant hPop hIdle] at h
      -- What comes during a delay comes after the look that found nothing.
      obtain ⟨hLe, moves, hRun⟩ := ih taken (history ++ (arrivals delays).map .came) h
      refine ⟨by omega, .proceed :: ((arrivals delays).map .byte ++ moves), ?_⟩
      rw [run_cons, step, proceed_wait hWant hPop hIdle, run_append, run_bytes, hRun,
        during_of_lt hLe, List.map_append, ← List.append_assoc]

/-- What happens while a packet is handled in one go. -/
structure Handles (bridge : Bridge) (request overheard : List UInt8) (arrivals : Nat → List UInt8)
    (happened : List Happening) : Prop where
  reply : happened.filterMap Happening.reply? = [(bridge.handle request overheard arrivals).1.reply]
  given : happened.filterMap Happening.given? =
    (bridge.handle request overheard arrivals).1.given request
  came : happened.filterMap Happening.byte? = incoming request overheard arrivals
    (bridge.handle request overheard arrivals).1.delays

variable (bridge : Bridge) (history : List Happening) (overheard : List UInt8)
  (arrivals : Nat → List UInt8)

/-- To transmit in one go is a run in which bytes come in while the line is driven. -/
theorem exists_run_transmit (data : List UInt8) :
    ∃ moves happened,
      (⟨bridge, .taking data, history⟩ : Working).run moves =
        ⟨(bridge.handle (transmitRequest :: data) overheard arrivals).2, .away,
          history ++ happened⟩ ∧
      Handles bridge (transmitRequest :: data) overheard arrivals happened := by
  obtain ⟨ring, trace⟩ := bridge
  refine ⟨[.proceed, .proceed] ++ overheard.map .byte ++ [.proceed, .proceed, .proceed, .proceed],
    overheard.map .came ++ [.flushed, .cleared, .answered none], ?_, ?_, ?_, ?_⟩
  · have hLast : history ++ (overheard.map .came ++ [.flushed, .cleared, .answered none]) =
        history ++ overheard.map .came ++ [.flushed] ++ [.cleared] ++ [.answered none] := by
      simp only [List.append_assoc, List.cons_append, List.nil_append]
    rw [run_append, run_append, handle_transmit, hLast]
    exact congrArg (run · _) (run_bytes ring _ .flushing _ overheard)
  · rw [handle_transmit, List.filterMap_append, Happening.filterMap_reply?_came]
    rfl
  · rw [handle_transmit, List.filterMap_append, Happening.filterMap_given?_came]
    rfl
  · rw [List.filterMap_append, Happening.filterMap_byte?_came]
    exact List.append_nil overheard

/-- To answer with received bytes in one go is a run in which bytes come in during the delays. -/
theorem exists_run_receive (wanted : UInt8) (more : List UInt8) :
    ∃ moves happened,
      (⟨bridge, .collecting (min wanted.toNat packetSize) 0 [], history⟩ : Working).run moves =
        ⟨(bridge.handle (receiveRequest :: wanted :: more) overheard arrivals).2, .away,
          history ++ happened⟩ ∧
      Handles bridge (receiveRequest :: wanted :: more) overheard arrivals happened := by
  obtain ⟨ring, trace⟩ := bridge
  rcases hCollect : collect arrivals (min wanted.toNat packetSize) 0 0 ring with
    ⟨bytes, delays, rest⟩
  obtain ⟨_, moves, hRun⟩ := exists_run_collect arrivals trace _ 0 0 ring [] history hCollect
  have hHandle := handle_receive hCollect trace more overheard
  refine ⟨moves, (during arrivals 0 delays).map .came ++ [.gave bytes], ?_, ?_, ?_, ?_⟩
  · rw [hHandle, ← List.append_assoc]
    exact hRun
  · rw [hHandle, List.filterMap_append, Happening.filterMap_reply?_came]
    rfl
  · rw [hHandle, List.filterMap_append, Happening.filterMap_given?_came]
    rfl
  · rw [hHandle, List.filterMap_append, Happening.filterMap_byte?_came]
    exact List.append_nil _

/-- A packet that is merely answered is a run of one step. -/
theorem exists_run_other {request : List UInt8} {reply : Option (List UInt8)}
    (hOpening : Stage.opening request = .answering reply)
    (hHandle : bridge.handle request overheard arrivals = (⟨reply, 0⟩, bridge)) :
    ∃ moves happened,
      (⟨bridge, .answering reply, history⟩ : Working).run moves =
        ⟨(bridge.handle request overheard arrivals).2, .away, history ++ happened⟩ ∧
      Handles bridge request overheard arrivals happened := by
  refine ⟨[.proceed], [.answered reply], ?_, ?_, ?_, ?_⟩
  · rw [hHandle]
    rfl
  · rw [hHandle]
    rfl
  · rw [hHandle, Answer.given]
    by_cases hReceive : request.head? = some receiveRequest
    · obtain ⟨data, rfl⟩ := List.head?_eq_some_iff.mp hReceive
      cases data with
      | nil =>
          have hNone : Stage.answering none = .answering reply := hOpening
          cases hNone
          rfl
      | cons wanted more =>
          have hCollecting : Stage.collecting (min wanted.toNat packetSize) 0 [] =
              .answering reply := hOpening
          cases hCollecting
    · rw [if_neg hReceive]
      rfl
  · have hOther : request.head? ≠ some transmitRequest := by
      intro hHead
      obtain ⟨data, rfl⟩ := List.head?_eq_some_iff.mp hHead
      have hTaking : Stage.taking data = .answering reply := hOpening
      cases hTaking
    rw [hHandle, incoming, if_neg hOther, during_self]
    rfl

/-- To handle a packet in one go is a run in which bytes come while the bridge drives the line and
during its delays. -/
theorem exists_run_handle (request : List UInt8) :
    ∃ moves happened,
      (⟨bridge, .away, history⟩ : Working).run (.packet request :: moves) =
        ⟨(bridge.handle request overheard arrivals).2, .away,
          history ++ [.asked request] ++ happened⟩ ∧
      Handles bridge request overheard arrivals happened := by
  have hOpened : (⟨bridge, .away, history⟩ : Working).step (.packet request) =
      ⟨bridge, .opening request, history ++ [.asked request]⟩ := rfl
  simp only [run_cons, hOpened]
  cases Packet.ofRequest request with
  | transmit data => exact exists_run_transmit bridge _ overheard arrivals data
  | receive wanted more => exact exists_run_receive bridge _ overheard arrivals wanted more
  | other hOpening hHandle =>
      rw [hOpening]
      exact exists_run_other bridge _ overheard arrivals hOpening
        (hHandle bridge overheard arrivals)

end Working

/-- What can be done with a bridge that handles each packet in one go. -/
inductive Call where
  | push (byte : UInt8)
  | handle (request overheard : List UInt8) (arrivals : Nat → List UInt8)

/-- A bridge after some calls. -/
structure Served where
  bridge : Bridge
  /-- What the packets were answered with. -/
  answers : List (Option (List UInt8)) := []
  /-- The answers to packets for received bytes. -/
  given : List (List UInt8) := []
  /-- What came in, also while packets were handled. -/
  came : List UInt8 := []

namespace Served

def step (served : Served) : Call → Served
  | .push byte =>
    { served with
      bridge := { served.bridge with ring := served.bridge.ring.push byte }
      came := served.came ++ [byte] }
  | .handle request overheard arrivals =>
    let (answer, bridge) := served.bridge.handle request overheard arrivals
    { bridge
      answers := served.answers ++ [answer.reply]
      given := served.given ++ answer.given request
      came := served.came ++ incoming request overheard arrivals answer.delays }

def run (served : Served) (calls : List Call) : Served :=
  calls.foldl step served

/-- A history in which the same came in and was answered. -/
structure Records (served : Served) (history : List Happening) : Prop where
  answers : history.filterMap Happening.reply? = served.answers
  given : history.filterMap Happening.given? = served.given
  came : history.filterMap Happening.byte? = served.came

variable {served : Served} {history : List Happening}

/-- One call more is a run that goes on from there and records the same. -/
theorem Records.step (records : served.Records history) (call : Call) :
    ∃ moves after, Working.run ⟨served.bridge, .away, history⟩ moves =
      ⟨(served.step call).bridge, .away, after⟩ ∧ (served.step call).Records after := by
  cases call with
  | push byte =>
      refine ⟨[.byte byte], history ++ [.came byte], rfl, ?_, ?_, ?_⟩
      · rw [List.filterMap_append, records.answers]
        exact List.append_nil _
      · rw [List.filterMap_append, records.given]
        exact List.append_nil _
      · rw [List.filterMap_append, records.came]
        rfl
  | handle request overheard arrivals =>
      obtain ⟨moves, happened, hRun, handles⟩ :=
        Working.exists_run_handle served.bridge history overheard arrivals request
      refine ⟨_, _, hRun, ?_, ?_, ?_⟩
      · rw [List.filterMap_append, List.filterMap_append, records.answers, handles.reply]
        exact congrArg (· ++ _) (List.append_nil _)
      · rw [List.filterMap_append, List.filterMap_append, records.given, handles.given]
        exact congrArg (· ++ _) (List.append_nil _)
      · rw [List.filterMap_append, List.filterMap_append, records.came, handles.came]
        exact congrArg (· ++ _) (List.append_nil _)

/-- Calls that handle packets in one go are a run of the bridge at work. -/
theorem Records.run (records : served.Records history) (calls : List Call) :
    ∃ moves after, Working.run ⟨served.bridge, .away, history⟩ moves =
      ⟨(served.run calls).bridge, .away, after⟩ ∧ (served.run calls).Records after := by
  induction calls generalizing served history with
  | nil => exact ⟨[], history, rfl, records⟩
  | cons call calls ih =>
      obtain ⟨first, between, hFirst, recordsFirst⟩ := records.step call
      obtain ⟨second, after, hSecond, recordsSecond⟩ := ih recordsFirst
      refine ⟨first ++ second, after, ?_, recordsSecond⟩
      rw [Working.run_append, hFirst]
      exact hSecond

end Served

end Multidrop.Bridge
