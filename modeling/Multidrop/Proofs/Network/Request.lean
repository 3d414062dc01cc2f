import Multidrop.Host.Client
import Multidrop.Proofs.Network.Exchange

/-!
Calls of a host on a bus. A call takes the bus from one state to another and gives a result; a
request of the host to an idle node is one exchange on the line, of which the bus keeps what the
host said.
-/

namespace Multidrop

/-- What the node asked has to make of a request of the host. -/
def Incoming.ofRequest (target : UInt8) (command : Command) (kind : PayloadKind)
    (payload : List UInt8) (reply : Nat) (meaning : Payload) : Incoming :=
  ⟨.ofLength (exchangeLength payload.length reply) target command, kind, payload, meaning⟩

namespace Incoming

variable {target : UInt8} {command : Command} {kind : PayloadKind} {payload : List UInt8}
  {reply : Nat} {meaning : Payload}

theorem toNat_length_ofRequest (hFits : exchangeLength payload.length reply ≤ 65535) :
    (ofRequest target command kind payload reply meaning).header.length.toNat =
      exchangeLength payload.length reply := by
  change (UInt16.ofNat (exchangeLength payload.length reply)).toNat = _
  rw [UInt16.toNat_ofNat', Nat.mod_eq_of_lt (by omega)]

/-- A request whose payload has the size of its kind is a packet that nodes can take. -/
theorem wellFormed_ofRequest (hFixed : ∀ wide, kind ≠ .leds wide)
    (hLength : payload.length = kind.capacity)
    (hFits : exchangeLength payload.length reply ≤ 65535)
    (hMeaning : (⟨kind, payload.toArray⟩ : Collector).decode? = some meaning) :
    (ofRequest target command kind payload reply meaning).WellFormed := by
  refine ⟨hFixed, hLength, ?_, hMeaning⟩
  rw [toNat_length_ofRequest hFits, length_bytes]
  exact Nat.le_add_right ..

/-- The host sends the bytes that the node has to hear. -/
theorem packet_eq (hFits : exchangeLength payload.length reply ≤ 65535) :
    Host.packet target command payload reply =
      .ok (ofRequest target command kind payload reply meaning).bytes := by
  rw [Host.packet]
  exact if_neg (Nat.not_lt.mpr hFits)

/-- A question, as a host asks it and waits for so many bytes. -/
def question (target : UInt8) (item : Query) (size : Nat) : Incoming :=
  ofRequest target .getData .query (toWire (Coded.code item)) size (.query item)

theorem exchangeLength_question (item : Query) (size : Nat) :
    exchangeLength (toWire (Coded.code item)).length size = exchangeLength 2 size :=
  congrArg (exchangeLength · size) (length_toWire (Coded.code item))

/-- A question is a packet that nodes can take. -/
theorem wellFormed_question {target : UInt8} {item : Query} {size : Nat}
    (hFits : exchangeLength 2 size ≤ 65535) :
    (question target item size).WellFormed := by
  refine wellFormed_ofRequest (by simp) (length_toWire (Coded.code item)) ?_ ?_
  · rw [exchangeLength_question]
    exact hFits
  · exact congrArg (some ∘ Payload.query) (ofWire_toWire item)

end Incoming

namespace Network

section Heard

variable {S : Type} [Station S] (network : Network S)

theorem heard_serve (index : Nat) : (network.serve index).heard = network.heard := by
  unfold serve
  split <;> rfl

theorem heard_round : network.round.heard = network.heard := by
  unfold round
  generalize List.range network.stations.size = indices
  induction indices generalizing network with
  | nil => rfl
  | cons index rest ih => exact (ih (network.serve index)).trans (network.heard_serve index)

/-- What stations say is not what the master said. -/
theorem heard_settle (rounds : Nat) : (network.settle rounds).heard = network.heard := by
  induction rounds generalizing network with
  | zero => rfl
  | succ rounds ih =>
      rw [settle]
      split
      · exact network.heard_round
      · exact (ih network.round).trans network.heard_round

/-- What the master says is heard. -/
theorem heard_inject (bytes : List UInt8) : (network.inject bytes).heard = network.heard :=
  heard_settle _ patience

/-- Whatever the stations do when the master speaks, it said these bytes and no others. -/
theorem heard_transmit (bytes : List UInt8) :
    (network.transmit bytes).heard = network.heard ++ bytes := by
  have hBytewise (rest : List UInt8) (network : Network S) :
      (rest.foldl (fun network byte => network.inject [byte]) network).heard = network.heard := by
    induction rest generalizing network with
    | nil => rfl
    | cons byte rest ih => exact (ih (network.inject [byte])).trans (network.heard_inject [byte])
  unfold transmit
  dsimp only
  split
  · exact hBytewise bytes _
  · rw [heard_inject]
    split <;> rfl

end Heard

section Calls

variable {S : Type} {α β : Type}

/-- A call of a host on a bus succeeds, and leaves the bus as given. -/
def Gives (network : Network S) (call : Host.Call (StateM (Network S)) α) (result : α)
    (next : Network S) : Prop :=
  call.run.run network = (.ok result, next)

variable {network between next : Network S}

theorem Gives.pure (result : α) : Gives network (Pure.pure result) result network :=
  rfl

/-- A call that is followed by another one gives what that gives. -/
theorem Gives.bind {call : Host.Call (StateM (Network S)) α}
    {rest : α → Host.Call (StateM (Network S)) β} {result : α} {last : β}
    (hFirst : Gives network call result between) (hRest : Gives between (rest result) last next) :
    Gives network (call >>= rest) last next := by
  unfold Gives at *
  rw [ExceptT.run_bind, StateT.run_bind, hFirst]
  exact hRest

theorem Gives.map {call : Host.Call (StateM (Network S)) α} {result : α} (change : α → β)
    (hCall : Gives network call result next) :
    Gives network (change <$> call) (change result) next := by
  unfold Gives at *
  rw [ExceptT.run_map, StateT.run_map, hCall]
  rfl

variable [Station S]

theorem gives_transmit (bytes : List UInt8) :
    Gives network (Host.Call.transmit bytes) () (network.transmit bytes) :=
  rfl

/-- The master gets the first bytes of what was said. -/
theorem gives_receive (network : Network S) (size : Nat) :
    Gives network (Host.Call.receive size) ((network.receive size).1.take size)
      (network.receive size).2 :=
  .map (List.take size) rfl

theorem Gives.heard_receive {size : Nat} {bytes : List UInt8}
    (gives : Gives network (Host.Call.receive size) bytes next) : next.heard = network.heard := by
  have hNext : next = (network.receive size).2 :=
    congrArg Prod.snd (gives.symm.trans (gives_receive network size))
  rw [hNext]
  rfl

/-- A request is heard as its packet. -/
theorem Gives.heard_request {target : UInt8} {command : Command} {kind : PayloadKind}
    {payload : List UInt8} {reply : Nat} (meaning : Payload)
    (hFits : exchangeLength payload.length reply ≤ 65535)
    (gives : Gives network (Host.request target command payload reply) () next) :
    next.heard =
      network.heard ++ (Incoming.ofRequest target command kind payload reply meaning).bytes := by
  rw [Host.request, Incoming.packet_eq hFits] at gives
  have hNext : next = network.transmit (Incoming.ofRequest target command kind payload reply
      meaning).bytes :=
    congrArg Prod.snd (gives.symm.trans (gives_transmit _))
  rw [hNext, heard_transmit]

end Calls

variable {C : Type} [CommandSet C] {network : Network (Node C)} {commands : C} {address : UInt8}
  {packet : Packet} {replies : Array UInt8}

/-- A master that asks for all that was said gets it. -/
theorem Hosts.gives_receive (hosts : Hosts network commands address packet replies) {size : Nat}
    (hSize : replies.size = size) :
    ∃ next, Gives network (Host.Call.receive size) replies.toList next ∧
      Hosts next commands address packet #[] := by
  subst hSize
  obtain ⟨hBytes, hNext⟩ := hosts.receive_all
  have hReceive := Network.gives_receive network replies.size
  rw [hBytes, ← Array.length_toList, List.take_length, Array.length_toList] at hReceive
  exact ⟨_, hReceive, hNext⟩

/-- A request that fits and that the node wants is executed. -/
theorem Hosts.gives_request [SteadyCommandSet C] {target : UInt8} {command : Command}
    {kind : PayloadKind} {payload : List UInt8} {reply : Nat} {meaning : Payload}
    (hosts : Hosts network commands address .idle #[])
    (formed : (Incoming.ofRequest target command kind payload reply meaning).WellFormed)
    (hFits : exchangeLength payload.length reply ≤ 65535)
    (hTarget : target = broadcast ∨ target = address)
    (hAccept : (CommandSet.accept commands
      (.ofLength (exchangeLength payload.length reply) target command)).1 = .collect kind) :
    ∃ next, Gives network (Host.request target command payload reply) () next ∧
      Executed next commands address
        (.ofRequest target command kind payload reply meaning) := by
  have hTargets : (Header.ofLength (exchangeLength payload.length reply) target command).targets
      address = true :=
    Header.targets_iff.mpr hTarget
  refine ⟨_, ?_, hosts.transmit formed hTargets hAccept⟩
  rw [Host.request, Incoming.packet_eq hFits]
  exact gives_transmit _

end Network

end Multidrop
