import Multidrop.Proofs.Node.Timer

/-!
What a node says on the line. While a request executes the line is taken before the first bytes and
given back after the last ones are out, or it is not touched at all; and between executions nothing
but the timer is.
-/

namespace Multidrop

namespace Line

/-- Whether a call is about the line itself and not about the timer. -/
def Call.talks : Call → Bool
  | restartTimer | stopTimer => false
  | transmit | receive | write _ | flush => true

/-- The calls of a trace that are about the line itself, oldest first. -/
def Trace.talk (trace : Trace) : List Call :=
  trace.toList.filter Call.talks

@[simp] theorem Trace.talk_append (first second : Trace) :
    Trace.talk (first ++ second) = first.talk ++ second.talk := by
  simp [talk]

@[simp] theorem Trace.talk_push (trace : Trace) (call : Call) :
    Trace.talk (trace.push call) = trace.talk ++ if call.talks then [call] else [] := by
  cases hTalks : call.talks <;> simp [talk, hTalks]

/-- What is said before the line is given back: nothing as long as the line was not taken. -/
def opened : List (List UInt8) → List Call
  | [] => []
  | pieces => .transmit :: pieces.map .write

/-- Only the first piece takes the line before it is written. -/
theorem opened_concat (pieces : List (List UInt8)) (bytes : List UInt8) :
    opened (pieces ++ [bytes]) =
      (if pieces.isEmpty then [.transmit] else opened pieces) ++ [.write bytes] := by
  cases pieces with
  | nil => rfl
  | cons piece rest => simp [opened]

/-- What one execution says: nothing at all, or one or more writes with the line taken once before
them, and flushed and given back once after them. -/
inductive Utterance : List Call → Prop where
  | silent : Utterance []
  | spoken (first : List UInt8) (rest : List (List UInt8)) :
      Utterance (.transmit :: (first :: rest).map .write ++ [.flush, .receive])

end Line

namespace Session

/-- What a session said since `before` is the line taken, if anything was said, and the pieces. -/
structure Spoke (before : Line.Trace) (pieces : List (List UInt8)) (session : Session) : Prop where
  taken : session.transmitting = !pieces.isEmpty
  said : ∃ calls : Line.Trace, session.trace = before ++ calls ∧ calls.talk = Line.opened pieces

variable {before : Line.Trace} {pieces : List (List UInt8)} {session : Session}

/-- To send says one more piece. -/
theorem Spoke.send (spoke : Spoke before pieces session) (bytes : List UInt8) :
    Spoke before (pieces ++ [bytes]) (session.send bytes) := by
  obtain ⟨hTaken, calls, hTrace, hCalls⟩ := spoke
  cases hHeld : session.transmitting with
  | true =>
      have hOpen : pieces.isEmpty = false := by simpa [hHeld] using hTaken.symm
      refine ⟨by simp [Session.send, take, hHeld], calls.push (.write bytes), ?_, ?_⟩
      · simp [Session.send, take, hHeld, hTrace]
      · simp [Line.opened_concat, hOpen, hCalls, Line.Call.talks]
  | false =>
      have hOpen : pieces.isEmpty = true := by simpa [hHeld] using hTaken.symm
      refine ⟨by simp [Session.send, take, hHeld], (calls.push .transmit).push (.write bytes), ?_, ?_⟩
      · simp [Session.send, take, hHeld, hTrace]
      · rw [List.isEmpty_iff] at hOpen
        simp [hOpen, Line.opened, hCalls, Line.Call.talks]

/-- To fill says some more pieces. -/
theorem spoke_fill (before : Line.Trace) (session : Session) (byte : UInt8) :
    ∀ pieces, Spoke before pieces session →
      ∃ more, Spoke before (pieces ++ more) (session.fill byte) := by
  induction session using fill.induct byte with
  | case1 session size hNone =>
      intro pieces spoke
      rw [Session.fill, if_pos hNone]
      exact ⟨[], by simpa using spoke⟩
  | case2 session size hMore ih =>
      intro pieces spoke
      obtain ⟨more, hSpoke⟩ := ih _ (spoke.send (List.replicate size byte))
      rw [Session.fill, if_neg hMore]
      exact ⟨List.replicate size byte :: more, by simpa using hSpoke⟩

/-- So do all actions. -/
theorem Spoke.run (spoke : Spoke before pieces session) (actions : List Action) :
    ∃ more, Spoke before (pieces ++ more) (session.run actions) := by
  induction actions generalizing session pieces with
  | nil => exact ⟨[], by simpa [Session.run] using spoke⟩
  | cons action rest ih =>
      obtain ⟨first, hFirst⟩ : ∃ first, Spoke before (pieces ++ first) (session.perform action) := by
        cases action with
        | send bytes => exact ⟨[bytes], spoke.send bytes⟩
        | fill byte => exact spoke_fill before session byte pieces spoke
        | setAddress address => exact ⟨[], by simpa using ⟨spoke.taken, spoke.said⟩⟩
      obtain ⟨second, hSecond⟩ := ih hFirst
      exact ⟨first ++ second, by simpa [Session.run] using hSecond⟩

/-- A session that is over said an utterance. -/
theorem Spoke.close (spoke : Spoke before pieces session) :
    ∃ calls : Line.Trace, session.close = before ++ calls ∧ Line.Utterance calls.talk := by
  obtain ⟨hTaken, calls, hTrace, hCalls⟩ := spoke
  cases pieces with
  | nil =>
      have hFree : session.transmitting = false := hTaken
      refine ⟨calls.push .stopTimer, by simp [Session.close, hFree, hTrace], ?_⟩
      have hSilent : Line.Trace.talk (calls.push .stopTimer) = [] := by
        simp [hCalls, Line.opened, Line.Call.talks]
      rw [hSilent]
      exact .silent
  | cons first rest =>
      have hHeld : session.transmitting = true := hTaken
      refine ⟨((calls.push .flush).push .receive).push .stopTimer, ?_, ?_⟩
      · simp [Session.close, hHeld, hTrace]
      · have hSpoken : Line.Trace.talk (((calls.push .flush).push .receive).push .stopTimer) =
            .transmit :: (first :: rest).map .write ++ [.flush, .receive] := by
          simp [hCalls, Line.opened, Line.Call.talks]
        rw [hSpoken]
        exact .spoken first rest

end Session

namespace Execution

variable {C : Type} [CommandSet C]

/-- The calls made on the line by an execution. -/
def calls (execution : Execution C) : Line.Trace :=
  execution.link.trace.extract execution.session.trace.size

/-- An execution comes after what was called before it, and says an utterance. -/
theorem trace_link {execution : Execution C} (hFree : execution.session.transmitting = false) :
    execution.link.trace = execution.session.trace ++ execution.calls ∧
      Line.Utterance execution.calls.talk := by
  have spoke : Session.Spoke execution.session.trace [] execution.session :=
    ⟨hFree, #[], by simp, rfl⟩
  obtain ⟨pieces, hRun⟩ := spoke.run execution.actions
  obtain ⟨calls, hTrace, hUtterance⟩ := hRun.close
  have hLink : execution.link.trace = execution.session.trace ++ calls := hTrace
  have hCalls : execution.calls = calls := by simp [Execution.calls, hLink]
  rw [hCalls]
  exact ⟨hLink, hUtterance⟩

end Execution

namespace Link

variable {C : Type}

/-- Between two states of a framer the line itself was talked on so. -/
def Talked (before after : Link C) (said : List Line.Call) : Prop :=
  ∃ calls : Line.Trace, after.trace = before.trace ++ calls ∧ calls.talk = said

theorem Talked.refl (link : Link C) : Talked link link [] :=
  ⟨#[], by simp, rfl⟩

/-- What is said in two steps is said one after the other. -/
theorem Talked.trans {first second third : Link C} {said more : List Line.Call}
    (left : Talked first second said) (right : Talked second third more) :
    Talked first third (said ++ more) := by
  obtain ⟨calls, hCalls, rfl⟩ := left
  obtain ⟨others, hOthers, rfl⟩ := right
  exact ⟨calls ++ others, by rw [hOthers, hCalls, Array.append_assoc], by simp⟩

theorem talked_call (link : Link C) {call : Line.Call} (h : call.talks = false) :
    Talked link (link.call call) [] :=
  ⟨#[call], rfl, by simp [Line.Trace.talk, h]⟩

/-- A timeout says nothing. -/
theorem talked_timeout (link : Link C) : Talked link link.timeout [] := by
  unfold timeout
  split
  · exact .refl link
  · exact talked_call { link with packet := .idle } rfl

/-- Nor does the end of a packet. -/
theorem talked_settle (link : Link C) : Talked link link.settle [] := by
  unfold settle
  split
  · exact talked_call link rfl
  · split
    · exact talked_call { link with packet := .idle } rfl
    · exact .refl link

/-- Receiving a byte is a matter of the timer alone. -/
theorem talked_receive [CommandSet C] (link : Link C) (byte : UInt8) :
    Talked link (link.receive byte) [] := by
  unfold receive
  split
  · exact .refl link
  · have counted : Talked (link.call .restartTimer) ((link.call .restartTimer).count byte) [] :=
      ⟨#[], by rw [trace_count, Array.append_empty], rfl⟩
    exact (talked_call link rfl).trans (counted.trans (talked_settle _))

end Link

namespace Node

variable {C : Type} (node : Node C)

/-- Nor does catching up with a silence. -/
theorem talked_catchUp : Link.Talked node.link.value node.catchUp.link.value [] := by
  rw [link_catchUp]
  split
  · exact Link.talked_timeout node.link.value
  · exact .refl _

variable [CommandSet C]

/-- A request that is executed finds the line as it was left. -/
theorem talked_due {execution : Execution C} (h : node.catchUp.link.value.due? = some execution) :
    execution.session.transmitting = false ∧
      Link.Talked node.link.value execution.link execution.calls.talk := by
  obtain ⟨_, hTrace, hFree⟩ := Link.session_of_due h
  have executed : Link.Talked node.catchUp.link.value execution.link execution.calls.talk :=
    ⟨execution.calls, by rw [(Execution.trace_link hFree).1, hTrace], rfl⟩
  exact ⟨hFree, node.talked_catchUp.trans executed⟩

/-- An event talks on the line by the request it executes and not otherwise. -/
theorem talked_step (event : Event) :
    Link.Talked node.link.value (node.step event).link.value
        ((node.executed event).flatMap (·.calls.talk)) ∧
      ∀ execution ∈ node.executed event, execution.session.transmitting = false := by
  cases hHeld : node.link.held with
  | true =>
      cases event with
      | byte byte =>
          rw [step, receive_of_held hHeld]
          exact ⟨.refl _, by simp [executed]⟩
      | silence =>
          rw [step, timeout_of_held hHeld]
          exact ⟨.refl _, by simp [executed]⟩
      | lock =>
          rw [step, lock_of_held hHeld]
          exact ⟨.refl _, by simp [executed]⟩
      | unlock => exact ⟨.refl _, by simp [executed]⟩
      | poll =>
          rw [step, poll_of_held hHeld, executed, due?_of_held hHeld]
          exact ⟨.refl _, by simp⟩
  | false =>
      cases event with
      | byte byte =>
          rw [step, receive_of_unlocked hHeld]
          exact ⟨node.talked_catchUp.trans (Link.talked_receive _ byte), by simp [executed]⟩
      | silence =>
          rw [step, timeout_of_unlocked hHeld]
          exact ⟨Link.talked_timeout _, by simp [executed]⟩
      | lock =>
          rw [step, lock_of_unlocked hHeld]
          exact ⟨node.talked_catchUp, by simp [executed]⟩
      | unlock => exact ⟨.refl _, by simp [executed]⟩
      | poll =>
          rw [step, executed, due?_of_unlocked hHeld, poll_of_unlocked hHeld]
          cases hReady : node.ready with
          | false => exact ⟨node.talked_catchUp, by simp⟩
          | true =>
              cases hDue : node.catchUp.link.value.due? with
              | none =>
                  simp only [Link.execute_eq, hDue, if_true]
                  exact ⟨node.talked_catchUp, by simp⟩
              | some execution =>
                  obtain ⟨hFree, hTalked⟩ := node.talked_due hDue
                  simp only [Link.execute_eq, hDue, if_true]
                  exact ⟨by simpa using hTalked, by simpa using hFree⟩

/-- Over any number of events the line hears the executions, one after the other, and nothing
else. -/
theorem talked_run (events : List Event) :
    Link.Talked node.link.value (node.run events).link.value
        ((node.executions events).flatMap (·.calls.talk)) ∧
      ∀ execution ∈ node.executions events, Line.Utterance execution.calls.talk := by
  induction events generalizing node with
  | nil => exact ⟨.refl _, by simp [executions]⟩
  | cons event rest ih =>
      obtain ⟨hStep, hFree⟩ := node.talked_step event
      obtain ⟨hRest, hUtterances⟩ := ih (node.step event)
      rw [executions, List.flatMap_append]
      refine ⟨hStep.trans hRest, fun execution hMem => ?_⟩
      rcases List.mem_append.mp hMem with hNow | hLater
      · exact (Execution.trace_link (hFree execution hNow)).2
      · exact hUtterances execution hLater

end Node

end Multidrop
