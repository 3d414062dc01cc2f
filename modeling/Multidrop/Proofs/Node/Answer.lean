import Multidrop.Proofs.Bootloader.Execution
import Multidrop.Proofs.Firmware.Execution
import Multidrop.Proofs.Node.Hearing
import Multidrop.Proofs.Node.Reply

/-!
Questions about a node. What an idle node says to one follows from its identity, from its address
and from the number of the item, whatever number that is and however much room the packet leaves.
-/

namespace Multidrop

namespace Session

/-- The sizes of the pieces in which a filling sends so many bytes. -/
def pieces (size : Nat) : List Nat :=
  List.replicate (size / fillChunk) fillChunk ++
    if size % fillChunk = 0 then [] else [size % fillChunk]

theorem pieces_of_pos {size : Nat} (h : 0 < size) :
    pieces size = min size fillChunk :: pieces (size - min size fillChunk) := by
  unfold pieces fillChunk
  by_cases hLast : size < 16
  · have hNone : size / 16 = 0 := Nat.div_eq_of_lt hLast
    have hAll : size % 16 = size := Nat.mod_eq_of_lt hLast
    rw [Nat.min_eq_left (Nat.le_of_lt hLast), hNone, hAll, Nat.sub_self, if_neg (Nat.ne_of_gt h)]
    rfl
  · have hMore : 16 ≤ size := Nat.le_of_not_lt hLast
    have hCount : size / 16 = (size - 16) / 16 + 1 := by omega
    have hRest : size % 16 = (size - 16) % 16 := by omega
    rw [Nat.min_eq_right hMore, hCount, hRest, List.replicate_succ, List.cons_append]

/-- A filling takes as many turns as it takes to send what is missing, and ends. -/
theorem fill_eq_run (session : Session) (byte : UInt8) :
    session.fill byte = session.run
      ((pieces session.remaining).map fun size => .send (List.replicate size byte)) := by
  induction session using fill.induct byte with
  | case1 session size hNone =>
      have hSize : size = min session.remaining fillChunk := rfl
      have hRemaining : session.remaining = 0 := by
        simp only [fillChunk] at hSize
        omega
      rw [fill, if_pos hNone, hRemaining]
      rfl
  | case2 session size hMore ih =>
      have hSize : size = min session.remaining fillChunk := rfl
      have hSome : 0 < session.remaining := by omega
      rw [fill, if_neg hMore, pieces_of_pos hSome, ← hSize]
      rw [remaining_send, List.length_replicate] at ih
      exact ih

end Session

namespace Identity

/-- What the item with this number is in bytes, for a node with this address. An item without a
length of its own takes the room that there is; numbers that mean nothing do so as well. -/
def reply (identity : Identity) (address : UInt8) (room : Nat) : (code : UInt16) → List UInt8
  | 1 => [Coded.code identity.status]
  | 2 => [address]
  | 3 => digits 4 identity.firmwareVersion.toNat
  | 4 => digits 4 identity.bootloaderVersion.toNat
  | 5 => [UInt8.ofNat identity.name.length]
  | 6 => identity.name.take room ++ List.replicate (room - identity.name.length) 0
  | _ => List.replicate room 0

variable (identity : Identity) (session : Session)

/-- The answer to a query is the reply that the identity owes for its code. -/
theorem reply_answer (code : UInt16) :
    Session.reply session.remaining (identity.answer session (Coded.ofCode code)) =
      identity.reply session.address session.remaining code := by
  unfold reply
  split
  · exact toWire_byte (Coded.code identity.status)
  · exact toWire_byte session.address
  · exact List.append_nil _
  · exact List.append_nil _
  · rfl
  · have hName : Session.reply session.remaining
        (identity.answer session (Coded.ofCode 6)) =
          identity.name.take session.remaining ++ (List.replicate
            (session.remaining - (identity.name.take session.remaining).length) 0 ++ []) := rfl
    have hMissing : session.remaining - (identity.name.take session.remaining).length =
        session.remaining - identity.name.length := by
      rw [List.length_take]
      omega
    rw [hName, hMissing, List.append_nil]
  · next =>
      have hUnknown : (Coded.ofCode code : Query) = .unknown := by simp only [Coded.ofCode]
      rw [hUnknown]
      exact List.append_nil _

/-- To answer a query does not change the address. -/
theorem address_run_answer (item : Query) :
    (session.run (identity.answer session item)).address = session.address := by
  cases item with
  | firmwareName => exact (Session.address_fill ..).trans (Session.address_send ..)
  | unknown => exact Session.address_fill ..
  | _ => exact Session.address_send ..

/-- Whatever is asked, what is said to it goes to the line and nothing else changes. -/
theorem run_answer (code : UInt16) :
    (session.run (identity.answer session (Coded.ofCode code))).trace.written =
        session.trace.written ++ identity.reply session.address session.remaining code ∧
      (session.run (identity.answer session (Coded.ofCode code))).address = session.address := by
  refine ⟨?_, identity.address_run_answer session _⟩
  rw [(session.run_spec _).1, reply_answer]

end Identity

/-- Commands that answer questions from one identity. They may have to find out something first, and
then they know it. -/
class Identified (C : Type) [CommandSet C] extends SteadyCommandSet C where
  identity : C → Identity
  settled : C → C
  settled_settled : ∀ commands, settled (settled commands) = settled commands
  accept_question : ∀ (commands : C) {header : Header}, header.command = .getData →
    (CommandSet.accept commands header).1 = .collect .query
  execute_question : ∀ (commands : C) {header : Header} (item : Query) (session : Session),
    header.command = .getData →
      CommandSet.execute commands ⟨header, .query item⟩ session =
        ((identity (settled commands)).answer session item, settled commands)

instance : Identified Bootloader where
  identity := Bootloader.identity
  settled := Bootloader.refresh
  settled_settled := Bootloader.refresh_refresh
  accept_question _ {header} h := by simp only [CommandSet.accept, Bootloader.accept, h, Shared.accept]
  execute_question bootloader {_} item session h := bootloader.execute_query h item session

instance : Identified Firmware where
  identity := Firmware.identity
  settled := id
  settled_settled _ := rfl
  accept_question _ {header} h := by simp only [CommandSet.accept, Firmware.accept, h, Shared.accept]
  execute_question firmware {_} item session h := firmware.execute_query h item session

namespace Node

open Grammar Identified

variable {C : Type} [CommandSet C] [Identified C] {node : Node C} {header : Header} {code : UInt16}
  {events : List Event}

/-- An idle node answers a question when it is polled after the last byte of it, and waits for the
next packet. -/
theorem Idle.answers (idle : node.Idle) (hCommand : header.command = .getData)
    (hTargets : header.targets node.address = true) (hFits : 6 ≤ header.length.toNat)
    (carries : Carries events (toWire header ++ toWire code)) :
    Shows (node.run (events ++ [.poll])) (settled node.commands) node.address .idle
      (node.link.value.trace.written ++
        (identity (settled node.commands)).reply node.address (header.length.toNat - 6) code) := by
  have hPayload : (toWire code).length = 2 := length_toWire code
  have hSix : Header.size + (toWire code).length = 6 := by rw [hPayload]; rfl
  have hLength : header.length.toNat =
      Header.size + (toWire code).length + (header.length.toNat - 6) := by
    rw [hSix]
    omega
  have hAccept := accept_question node.commands hCommand
  have hComplete : completion? header.length.toNat (CommandSet.accept node.commands header).1 =
      some (Header.size + (toWire code).length) := by
    rw [hAccept, hSix]
    exact if_pos hFits
  obtain ⟨execution, _, hCommands, hRequest, hHeader, hPosition, hAddress, hWritten, shows⟩ :=
    idle.executes_packet hTargets hLength hComplete carries
  have hMeaning : Grammar.payload (lineOf (toWire header ++ toWire code)) (.collect .query) =
      .query (Coded.ofCode code) := by
    have hBody := (lineOf_packet header (toWire code)).2.2
    rw [hPayload] at hBody
    generalize lineOf (toWire header ++ toWire code) = line at hBody ⊢
    change Payload.query (Coded.ofCode (ofWire (front (body line) 2))) = _
    rw [hBody, ofWire_toWire]
  have hBoth : CommandSet.execute execution.commands execution.request execution.session =
      ((identity (settled node.commands)).answer execution.session (Coded.ofCode code),
        settled node.commands) := by
    rw [hCommands, hRequest, hAccept, hMeaning]
    exact execute_question node.commands _ execution.session hCommand
  have hRoom : execution.session.remaining = header.length.toNat - 6 := by
    rw [Session.remaining, hHeader, hPosition, hSix]
  obtain ⟨hSaid, hSame⟩ :=
    (identity (settled node.commands)).run_answer execution.session code
  rw [Execution.after, Execution.actions, hBoth, hSaid, hSame, hRoom, hAddress, hWritten] at shows
  exact shows

end Node

end Multidrop
