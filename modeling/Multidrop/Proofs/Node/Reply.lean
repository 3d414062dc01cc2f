import Multidrop.Node.Shared
import Multidrop.Proofs.Node.Event
import Multidrop.Proofs.Packed

/-!
How many bytes a node answers with. What the actions of a command send follows from them and from
how much of the packet is left, and the session counts every byte of it.
-/

namespace Multidrop

/-- What an action sends when so many bytes of the packet are left. -/
def Action.bytes (remaining : Nat) : Action → List UInt8
  | .send bytes => bytes
  | .fill byte => List.replicate remaining byte
  | .setAddress _ => []

namespace Session

/-- What actions send, one after the other, when so many bytes of the packet are left at first. -/
def reply (remaining : Nat) : List Action → List UInt8
  | [] => []
  | action :: rest =>
    action.bytes remaining ++ reply (remaining - (action.bytes remaining).length) rest

/-- What is sent counts towards the length. -/
theorem position_send (session : Session) (bytes : List UInt8) :
    (session.send bytes).position = session.position + bytes.length := by
  simp only [send, take]
  split <;> rfl

/-- Filling leaves nothing of the length. -/
theorem remaining_fill (session : Session) (byte : UInt8) : (session.fill byte).remaining = 0 := by
  induction session using fill.induct byte with
  | case1 session size hNone =>
      have hSize : size = min session.remaining fillChunk := rfl
      rw [fill, if_pos hNone]
      simp only [fillChunk] at hSize
      omega
  | case2 session size hMore ih => rwa [fill, if_neg hMore]

/-- A filling ends at the declared length, if it was not passed before. -/
theorem position_fill (session : Session) (byte : UInt8) :
    (session.fill byte).position = session.position + session.remaining := by
  induction session using fill.induct byte with
  | case1 session size hNone =>
      have hSize : size = min session.remaining fillChunk := rfl
      rw [fill, if_pos hNone]
      simp only [fillChunk] at hSize
      omega
  | case2 session size hMore ih =>
      have hSize : size = min session.remaining fillChunk := rfl
      rw [fill, if_neg hMore]
      rw [position_send, remaining_send, List.length_replicate] at ih
      exact ih.trans (by omega)

/-- One action sends its bytes, counts them and leaves that much less of the packet. -/
theorem perform_spec (session : Session) (action : Action) :
    (session.perform action).trace.written =
        session.trace.written ++ action.bytes session.remaining ∧
      (session.perform action).position =
        session.position + (action.bytes session.remaining).length ∧
      (session.perform action).remaining =
        session.remaining - (action.bytes session.remaining).length := by
  cases action with
  | send bytes =>
      exact ⟨written_send session bytes, position_send session bytes, remaining_send session bytes⟩
  | fill byte =>
      rw [Action.bytes, List.length_replicate, Nat.sub_self]
      exact ⟨written_fill session byte, position_fill session byte, remaining_fill session byte⟩
  | setAddress address => exact ⟨(List.append_nil _).symm, rfl, rfl⟩

/-- A session sends what its actions say and counts all of it. -/
theorem run_spec (session : Session) (actions : List Action) :
    (session.run actions).trace.written =
        session.trace.written ++ reply session.remaining actions ∧
      (session.run actions).position =
        session.position + (reply session.remaining actions).length := by
  induction actions generalizing session with
  | nil => exact ⟨(List.append_nil _).symm, rfl⟩
  | cons action rest ih =>
      obtain ⟨hWritten, hPosition, hRemaining⟩ := session.perform_spec action
      obtain ⟨hRest, hEnd⟩ := ih (session.perform action)
      refine ⟨hRest.trans ?_, hEnd.trans ?_⟩
      · rw [hWritten, hRemaining, reply, List.append_assoc]
      · rw [hPosition, hRemaining, reply, List.length_append, Nat.add_assoc]

/-- Later actions reply within what the earlier ones left of the length. -/
theorem reply_append (remaining : Nat) (first second : List Action) :
    reply remaining (first ++ second) = reply remaining first ++
      reply (remaining - (reply remaining first).length) second := by
  induction first generalizing remaining with
  | nil => rfl
  | cons action rest ih =>
      rw [List.cons_append, reply, reply, ih, List.length_append, Nat.sub_sub, List.append_assoc]

/-- What is sent as it is does not depend on the packet. -/
theorem reply_sends (remaining : Nat) (pieces : List (List UInt8)) :
    reply remaining (pieces.map .send) = pieces.flatten := by
  induction pieces generalizing remaining with
  | nil => rfl
  | cons piece rest ih => rw [List.map_cons, reply, ih, List.flatten_cons, Action.bytes]

end Session

/-- How many bytes answer a query when so many bytes of the packet are left. -/
def Query.replySize (remaining : Nat) : Query → Nat
  | .status | .address | .firmwareNameLength => 1
  | .firmwareVersion | .bootloaderVersion => 4
  | .firmwareName | .unknown => remaining

/-- A name is cut or padded to what is left of the packet, and so is the answer to a query that
means nothing. Everything else is as long as it is. -/
theorem Identity.length_answer (identity : Identity) (session : Session) (item : Query) :
    (Session.reply session.remaining (identity.answer session item)).length =
      item.replySize session.remaining := by
  cases item with
  | status => exact congrArg List.length (List.append_nil _)
  | address => rfl
  | firmwareVersion => exact length_toWire identity.firmwareVersion
  | bootloaderVersion => exact length_toWire identity.bootloaderVersion
  | firmwareNameLength => rfl
  | firmwareName =>
      simp only [answer, Session.reply, Action.bytes, List.append_nil, List.length_append,
        List.length_take, List.length_replicate, Query.replySize]
      omega
  | unknown =>
      simp only [answer, Session.reply, Action.bytes, List.append_nil, List.length_replicate,
        Query.replySize]

namespace Shared

/-- How many bytes answer a shared command when so many bytes of the packet are left. -/
def replySize (request : Request) (remaining : Nat) : Nat :=
  match request.header.command, request.payload with
  | .ping, _ => 1
  | .getData, .query item => item.replySize remaining
  | .setAddress, .address _ => 1
  | _, _ => 0

/-- The reply to an assignment is one byte. -/
theorem length_setAddress (flash : Flash) (address : UInt8) (remaining : Nat) :
    (Session.reply remaining (setAddress flash address).1).length = 1 := by
  unfold setAddress
  split <;> rfl

/-- What both programs share replies with as many bytes as the request has to expect. -/
theorem length_reply (request : Request) (session : Session) (identity : Identity) (flash : Flash) :
    (Session.reply session.remaining (execute request session identity flash).1).length =
      replySize request session.remaining := by
  unfold execute
  split
  · next hCommand => simp only [replySize, hCommand]; rfl
  · next item hCommand hPayload =>
      simp only [replySize, hCommand, hPayload]
      exact identity.length_answer session item
  · next address hCommand hPayload =>
      simp only [replySize, hCommand, hPayload]
      exact length_setAddress flash address session.remaining
  · next hCommand => simp only [replySize, hCommand]; rfl
  · next hPing _ hQuery hSet =>
      rw [replySize]
      split
      · next hCommand => exact absurd hCommand hPing
      · next item hCommand hPayload => exact absurd hPayload (hQuery item hCommand)
      · next address hCommand hPayload => exact absurd hPayload (hSet address hCommand)
      · rfl

/-- A reply fits in what is left of the packet when its shortest form does. -/
theorem replySize_le_iff (request : Request) (remaining : Nat) :
    replySize request remaining ≤ remaining ↔ replySize request 0 ≤ remaining := by
  unfold replySize
  split
  · exact Iff.rfl
  · next item _ _ => cases item <;> simp [Query.replySize]
  · exact Iff.rfl
  · simp

end Shared

end Multidrop
