import Multidrop.Node.Session

/-!
The line during an execution. It is taken at most once and given back at the end, and what is sent
in between follows from the actions alone.
-/

namespace Multidrop

namespace Line

/-- Whether a node holds the line after a call, given whether it held it before. -/
def Call.taken (taken : Bool) : Call → Bool
  | transmit => true
  | receive => false
  | _ => taken

/-- Whether a node that listened at first holds the line after the calls of a trace. -/
def Trace.taken (trace : Trace) : Bool :=
  trace.foldl Call.taken false

@[simp] theorem Trace.taken_push (trace : Trace) (call : Call) :
    Trace.taken (trace.push call) = call.taken trace.taken := by
  simp [taken]

@[simp] theorem Trace.written_push (trace : Trace) (call : Call) :
    Trace.written (trace.push call) = trace.written ++ call.written := by
  simp [written]

end Line

namespace Session

theorem run_append (session : Session) (first second : List Action) :
    session.run (first ++ second) = (session.run first).run second :=
  List.foldl_append

/-- A session knows whether it holds the line. -/
def Knows (session : Session) : Prop :=
  session.trace.taken = session.transmitting

/-- To send keeps track of whether the line was taken. -/
theorem Knows.send {session : Session} (knows : session.Knows) (bytes : List UInt8) :
    (session.send bytes).Knows := by
  unfold Knows at knows ⊢
  simp only [Session.send, take]
  cases hHeld : session.transmitting with
  | true => simp [knows, hHeld, Line.Call.taken]
  | false => simp [Line.Call.taken]

/-- So does to fill. -/
theorem Knows.fill {session : Session} (knows : session.Knows) (byte : UInt8) :
    (session.fill byte).Knows := by
  induction session using fill.induct byte with
  | case1 session size hNone =>
      rw [Session.fill, if_pos hNone]
      exact knows
  | case2 session size hMore ih =>
      rw [Session.fill, if_neg hMore]
      exact ih (knows.send _)

/-- So do all actions. -/
theorem Knows.run {session : Session} (knows : session.Knows) (actions : List Action) :
    (session.run actions).Knows := by
  induction actions generalizing session with
  | nil => exact knows
  | cons action rest ih =>
      cases action with
      | send bytes => exact ih (knows.send bytes)
      | fill byte => exact ih (knows.fill byte)
      | setAddress address => exact ih knows

/-- At the end of a session the line is free. -/
theorem Knows.taken_close {session : Session} (knows : session.Knows) :
    session.close.taken = false := by
  unfold Knows at knows
  cases hHeld : session.transmitting with
  | true => simp [close, hHeld, Line.Call.taken]
  | false => simp [close, hHeld, knows, Line.Call.taken]

@[simp] theorem written_send (session : Session) (bytes : List UInt8) :
    (session.send bytes).trace.written = session.trace.written ++ bytes := by
  simp only [send, take]
  split <;> simp [Line.Call.written]

/-- A filling sends what was missing. -/
theorem written_fill (session : Session) (byte : UInt8) :
    (session.fill byte).trace.written =
      session.trace.written ++ List.replicate session.remaining byte := by
  induction session using fill.induct byte with
  | case1 session size hNone =>
      have hRemaining : session.remaining = 0 := by
        have hSize : size = min session.remaining 16 := rfl
        omega
      rw [fill, if_pos hNone, hRemaining]
      simp
  | case2 session size hMore ih =>
      have hSplit : session.remaining = size + (session.remaining - size) := by
        have hSize : size = min session.remaining 16 := rfl
        omega
      rw [fill, if_neg hMore]
      refine ih.trans ?_
      rw [written_send, remaining_send, List.length_replicate, List.append_assoc,
        List.replicate_append_replicate]
      exact congrArg (session.trace.written ++ List.replicate · byte) hSplit.symm

@[simp] theorem address_send (session : Session) (bytes : List UInt8) :
    (session.send bytes).address = session.address := by
  simp only [send, take]
  split <;> rfl

@[simp] theorem address_fill (session : Session) (byte : UInt8) :
    (session.fill byte).address = session.address := by
  induction session using fill.induct byte with
  | case1 session size hNone => rw [fill, if_pos hNone]
  | case2 session size hMore ih =>
      rw [fill, if_neg hMore]
      exact ih.trans (address_send ..)

@[simp] theorem written_close (session : Session) :
    session.close.written = session.trace.written := by
  unfold close
  split <;> simp [Line.Call.written]

end Session

end Multidrop
