import Multidrop.Proofs.Network.Request
import Multidrop.Proofs.Node.Answer

/-!
A host that asks a node about itself. Whatever is asked, and however often, the answers are those of
one identity: what the node knows after it checked what it had to check.
-/

namespace Multidrop

/-- What is sent first is what was said. -/
theorem Session.written_run_send {session : Session} (hFirst : session.trace.written = [])
    (bytes : List UInt8) : (session.run [.send bytes]).trace.written = bytes := by
  change (session.send bytes).trace.written = bytes
  rw [written_send, hFirst, List.nil_append]

/-- What a host can ask about the firmware of a node. -/
inductive Inquiry where
  | version
  | nameLength
  | name
  deriving DecidableEq

/-- What a host is told about the firmware of a node. -/
inductive Told where
  | version (version : UInt32)
  | nameLength (length : UInt8)
  | name (name : List UInt8)
  deriving DecidableEq

def Inquiry.ask {m : Type → Type} [Monad m] [Host.Transport m] (target : UInt8) :
    Inquiry → Host.Call m Told
  | version => Told.version <$> Host.firmwareVersion target
  | nameLength => Told.nameLength <$> Host.firmwareNameLength target
  | name => Told.name <$> Host.firmwareNameBytes target

/-- What an identity has to say to an inquiry. -/
def Identity.told (identity : Identity) : Inquiry → Told
  | .version => .version identity.firmwareVersion
  | .nameLength => .nameLength (UInt8.ofNat identity.name.length)
  | .name => .name identity.name

/-- What a host says to learn a name: it asks for the length, and then for as many bytes, if there
are any. -/
def Host.nameQuestions (target : UInt8) (name : List UInt8) : List (List UInt8) :=
  (Incoming.question target .firmwareNameLength 1).bytes ::
    if name = [] then [] else [(Incoming.question target .firmwareName name.length).bytes]

namespace Network

/-- What a node said and what became of it, given what its commands make of the request. -/
theorem Executed.hosts {C : Type} [CommandSet C] {network : Network (Node C)} {commands after : C}
    {address : UInt8} {incoming : Incoming} {said : List UInt8}
    (executed : Executed network commands address incoming)
    (hSaid : ∀ session : Session, session.header = incoming.header →
      session.position = incoming.bytes.length → session.address = address →
        session.trace.written = [] →
          ∃ actions, CommandSet.execute commands incoming.request session = (actions, after) ∧
            (session.run actions).trace.written = said ∧
            (session.run actions).address = session.address) :
    Hosts network after address .idle said.toArray := by
  obtain ⟨execution, hCommands, hRequest, hHeader, hPosition, hAddress, hFirst, hosts⟩ := executed
  obtain ⟨actions, hExecute, hWritten, hSame⟩ :=
    hSaid execution.session hHeader hPosition hAddress hFirst
  have hBoth : CommandSet.execute execution.commands execution.request execution.session =
      (actions, after) := by
    rw [hCommands, hRequest, hExecute]
  rw [Execution.after, Execution.actions, hBoth] at hosts
  rw [← hAddress, ← hSame, ← hWritten]
  exact hosts

open Identified

variable {C : Type} [CommandSet C] [Identified C] {network : Network (Node C)} {commands : C}
  {address target : UInt8}

/-- A question is answered with what the identity says, and the node has looked it up by then. -/
theorem Hosts.gives_data {item : Query} {said : List UInt8} {size : Nat}
    (hosts : Hosts network commands address .idle #[])
    (hTarget : target = broadcast ∨ target = address)
    (hSaid : (identity (settled commands)).reply address size (Coded.code item) = said)
    (hLength : said.length = size) (hFits : exchangeLength 2 size ≤ 65535) :
    ∃ next, Gives network (Host.getData target (Coded.code item) size) said next ∧
      Hosts next (settled commands) address .idle #[] ∧
      next.heard = network.heard ++ (Incoming.question target item size).bytes := by
  have hWhole := Nat.le_trans (Nat.le_of_eq (Incoming.exchangeLength_question item size)) hFits
  have formed : (Incoming.question target item size).WellFormed :=
    Incoming.wellFormed_question hFits
  obtain ⟨between, hRequest, executed⟩ :=
    hosts.gives_request formed hWhole hTarget (accept_question commands rfl)
  have hHeard : between.heard = network.heard ++ (Incoming.question target item size).bytes :=
    hRequest.heard_request (.query item) hWhole
  have hAnswered : Hosts between (settled commands) address .idle said.toArray := by
    refine executed.hosts fun session hHeader hPosition hAddress hFirst => ?_
    have hRemaining : session.remaining = size := by
      rw [Session.remaining, hHeader, hPosition, Incoming.toNat_length_ofRequest hWhole,
        Incoming.length_bytes]
      exact Nat.add_sub_cancel_left ..
    obtain ⟨hWritten, hSame⟩ := (identity (settled commands)).run_answer session (Coded.code item)
    rw [hFirst, List.nil_append, hAddress, hRemaining, hSaid] at hWritten
    have hItem : (Coded.ofCode (Coded.code item) : Query) = item := LawfulCoded.ofCode_code item
    rw [hItem] at hWritten hSame
    exact ⟨_, execute_question commands item session rfl, hWritten, hSame⟩
  obtain ⟨next, hReceive, hNext⟩ := hAnswered.gives_receive (by simpa using hLength)
  have hNotEmpty : ¬(said.length = 0 ∧ size ≠ 0) := by omega
  refine ⟨next, hRequest.bind (hReceive.bind ?_), hNext, hReceive.heard_receive.trans hHeard⟩
  rw [if_neg hNotEmpty]
  exact .pure said

/-- An item of fixed size is answered with its value. -/
theorem Hosts.gives_item {α : Type} [Packed α] [LawfulPacked α] {item : Query} {value : α}
    (hosts : Hosts network commands address .idle #[])
    (hTarget : target = broadcast ∨ target = address)
    (hSaid : (identity (settled commands)).reply address (Packed.size α) (Coded.code item) =
      toWire value)
    (hFits : exchangeLength 2 (Packed.size α) ≤ 65535) :
    ∃ next, Gives network (Host.getItem α target item) value next ∧
      Hosts next (settled commands) address .idle #[] ∧
      next.heard = network.heard ++ (Incoming.question target item (Packed.size α)).bytes := by
  have hRead : Packed.read? α (toWire value) = some value := by
    simpa using read?_toWire value []
  obtain ⟨next, hData, hNext⟩ := hosts.gives_data hTarget hSaid (length_toWire value) hFits
  refine ⟨next, hData.bind ?_, hNext⟩
  rw [hRead]
  exact .pure value

/-- The length of the name is answered with one byte. -/
theorem Hosts.gives_nameLength (hosts : Hosts network commands address .idle #[])
    (hTarget : target = broadcast ∨ target = address) :
    ∃ next, Gives network (Host.firmwareNameLength target)
        (UInt8.ofNat (identity (settled commands)).name.length) next ∧
      Hosts next (settled commands) address .idle #[] ∧
      next.heard = network.heard ++ (Incoming.question target .firmwareNameLength 1).bytes :=
  hosts.gives_item hTarget (toWire_byte _).symm (by decide)

/-- The name is asked for in two steps, its length and then its bytes, unless there are none. -/
theorem Hosts.gives_name (hosts : Hosts network commands address .idle #[])
    (hTarget : target = broadcast ∨ target = address)
    (hName : (identity (settled commands)).name.length ≤ Layout.nameMax) :
    ∃ next, Gives network (Host.firmwareNameBytes target) (identity (settled commands)).name next ∧
      Hosts next (settled commands) address .idle #[] ∧
      next.heard = network.heard ++
        (Host.nameQuestions target (identity (settled commands)).name).flatten := by
  obtain ⟨between, hLength, hBetween, hHeard⟩ := hosts.gives_nameLength hTarget
  generalize hTold : (identity (settled commands)).name = name at hName hLength ⊢
  have hShort : (UInt8.ofNat name.length).toNat = name.length := by
    rw [UInt8.toNat_ofNat', Nat.mod_eq_of_lt (Nat.lt_of_le_of_lt hName (by decide))]
  by_cases hNone : name = []
  · subst hNone
    refine ⟨between, hLength.bind (.pure []), hBetween, hHeard.trans ?_⟩
    simp [Host.nameQuestions]
  · have hSome : UInt8.ofNat name.length ≠ 0 := by
      intro hZero
      rw [hZero] at hShort
      exact hNone (List.eq_nil_of_length_eq_zero hShort.symm)
    have hSaid : (identity (settled (settled commands))).reply address name.length
        (Coded.code Query.firmwareName) = name := by
      have hReply : (identity (settled commands)).reply address name.length
          (Coded.code Query.firmwareName) = (identity (settled commands)).name.take name.length ++
            List.replicate (name.length - (identity (settled commands)).name.length) 0 := rfl
      rw [settled_settled, hReply, hTold, List.take_length, Nat.sub_self, List.replicate_zero,
        List.append_nil]
    obtain ⟨next, hData, hNext, hLast⟩ := hBetween.gives_data hTarget hSaid rfl
      (Nat.le_trans (Nat.add_le_add_left hName _) (by decide))
    rw [settled_settled] at hNext
    refine ⟨next, hLength.bind ?_, hNext, ?_⟩
    · rw [if_neg hSome, hShort]
      exact hData
    · rw [hLast, hHeard, Host.nameQuestions, if_neg hNone]
      exact Array.ext' (by simp)

/-- Every inquiry is answered with what the identity says. -/
theorem Hosts.gives_told (hosts : Hosts network commands address .idle #[])
    (hTarget : target = broadcast ∨ target = address)
    (hName : (identity (settled commands)).name.length ≤ Layout.nameMax) (inquiry : Inquiry) :
    ∃ next, Gives network (inquiry.ask target) ((identity (settled commands)).told inquiry) next ∧
      Hosts next (settled commands) address .idle #[] := by
  cases inquiry with
  | version =>
      have hSaid : (identity (settled commands)).reply address (Packed.size UInt32)
          (Coded.code Query.firmwareVersion) =
            toWire (identity (settled commands)).firmwareVersion := rfl
      obtain ⟨next, hItem, hNext, _⟩ := hosts.gives_item hTarget hSaid (by decide)
      exact ⟨next, hItem.map Told.version, hNext⟩
  | nameLength =>
      obtain ⟨next, hItem, hNext, _⟩ := hosts.gives_nameLength hTarget
      exact ⟨next, hItem.map Told.nameLength, hNext⟩
  | name =>
      obtain ⟨next, hItem, hNext, _⟩ := hosts.gives_name hTarget hName
      exact ⟨next, hItem.map Told.name, hNext⟩

/-- Inquiries are all answered from one identity, however many there are and in whatever order. -/
theorem Hosts.gives_answers (hosts : Hosts network commands address .idle #[])
    (hTarget : target = broadcast ∨ target = address)
    (hName : (identity (settled commands)).name.length ≤ Layout.nameMax)
    (inquiries : List Inquiry) :
    ∃ next, Gives network (inquiries.mapM (·.ask target))
      (inquiries.map (identity (settled commands)).told) next := by
  induction inquiries generalizing network commands with
  | nil => exact ⟨network, .pure []⟩
  | cons inquiry rest ih =>
      obtain ⟨between, hFirst, hBetween⟩ := hosts.gives_told hTarget hName inquiry
      obtain ⟨next, hRest⟩ := ih hBetween (by rw [settled_settled]; exact hName)
      rw [settled_settled] at hRest
      rw [List.mapM_cons]
      exact ⟨next, hFirst.bind (hRest.bind (.pure _))⟩

end Network

end Multidrop
