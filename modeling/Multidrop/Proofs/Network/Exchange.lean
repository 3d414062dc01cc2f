import Multidrop.Proofs.Node.Attendance

/-!
A master and one node. Whether the node is served after each byte or once the master said all, a
request is executed exactly when its last byte has come, and the reply waits for the master.
-/

namespace Multidrop.Network

variable {C : Type}

/-- The bus has one node, which shows what is given, and so many replies for the master. -/
def Hosts (network : Network (Node C)) (commands : C) (address : UInt8) (packet : Packet)
    (replies : Array UInt8) : Prop :=
  network.replies = replies ∧
    ∃ node : Node C, network.stations = #[node] ∧ node.Shows commands address packet []

variable {network : Network (Node C)} {commands : C} {address : UInt8} {packet : Packet}
  {replies : Array UInt8}

/-- What every listening node makes of something is what the one on the bus makes of it. -/
theorem Hosts.map {commands' : C} {address' : UInt8} {packet' : Packet} {change : Node C → Node C}
    (hosts : Hosts network commands address packet replies)
    (hChange : ∀ node : Node C, node.Shows commands address packet [] →
      (change node).Shows commands' address' packet' []) :
    Hosts { network with stations := network.stations.map change } commands' address' packet'
      replies := by
  obtain ⟨hReplies, node, hNode, shows⟩ := hosts
  exact ⟨hReplies, change node, by simp [hNode], hChange node shows⟩

/-- The master gets what was said, as far as it asks for it, and the rest stays. -/
theorem Hosts.receive (hosts : Hosts network commands address packet replies) (size : Nat) :
    (network.receive size).1 = (replies.extract 0 size).toList ∧
      Hosts (network.receive size).2 commands address packet
        (replies.extract size replies.size) := by
  obtain ⟨hReplies, hNode⟩ := hosts
  rw [Network.receive, hReplies]
  exact ⟨rfl, rfl, hNode⟩

/-- The master gets all that was said. -/
theorem Hosts.receive_all (hosts : Hosts network commands address packet replies) :
    (network.receive replies.size).1 = replies.toList ∧
      Hosts (network.receive replies.size).2 commands address packet #[] := by
  obtain ⟨hBytes, hNext⟩ := hosts.receive replies.size
  simp only [Array.extract_size, Array.extract_empty_of_stop_le_start (Nat.le_refl _)]
    at hBytes hNext
  exact ⟨hBytes, hNext⟩

variable [CommandSet C] {incoming : Incoming}

/-- The node executed a request and waits for the next one, and all it said waits for the master. -/
def Executed (network : Network (Node C)) (commands : C) (address : UInt8) (incoming : Incoming) :
    Prop :=
  ∃ execution : Execution C, execution.commands = commands ∧
    execution.request = incoming.request ∧ execution.session.header = incoming.header ∧
    execution.session.position = incoming.bytes.length ∧ execution.session.address = address ∧
    execution.session.trace.written = [] ∧
    Hosts network execution.after (execution.session.run execution.actions).address .idle
      (execution.session.run execution.actions).trace.written.toArray

/-- On a bus with one node a round serves that node. -/
theorem round_of_single {node next : Node C} {command : Option Command} {said : List UInt8}
    (hNode : network.stations = #[node]) (hServe : Station.serve node = (command, said, next)) :
    network.round.stations = #[next] ∧ network.round.replies = network.replies ++ said := by
  have hFirst : network.stations[0]? = some node := by rw [hNode]; rfl
  have hRange : List.range network.stations.size = [0] := by rw [hNode]; rfl
  rw [round, hRange]
  simp only [List.foldl_cons, List.foldl_nil, serve, hFirst, hServe]
  refine ⟨?_, trivial⟩
  rw [hNode]
  rfl

/-- As long as nothing is ready, a round changes nothing. -/
theorem Hosts.round (hosts : Hosts network commands address packet replies)
    (hWaiting : packet.isReady = false) : Hosts network.round commands address packet replies := by
  obtain ⟨hReplies, node, hNode, shows⟩ := hosts
  obtain ⟨next, hServe, hNext⟩ := shows.serve_waiting hWaiting
  obtain ⟨hStations, hSaid⟩ := round_of_single hNode hServe
  exact ⟨by rw [hSaid, hReplies]; simp, next, hStations, hNext⟩

/-- Where nothing is ready one round is enough. -/
theorem Hosts.settle (hosts : Hosts network commands address packet replies)
    (hWaiting : packet.isReady = false) (rounds : Nat) :
    Hosts (network.settle (rounds + 1)) commands address packet replies := by
  have hRound := hosts.round hWaiting
  rw [Network.settle, if_pos (by rw [hRound.1, hosts.1])]
  exact hRound

/-- Where a request is ready one round executes it, and a second one finds nothing to do. -/
theorem Hosts.settle_ready (hosts : Hosts network commands address
      (.ready incoming.request incoming.bytes.length) #[]) (rounds : Nat) :
    Executed (network.settle (rounds + 2)) commands address incoming := by
  obtain ⟨hReplies, node, hNode, shows⟩ := hosts
  obtain ⟨execution, hCommands, hRequest, hHeader, hPosition, hAddress, hTrace, _, next,
    hServe, hNext⟩ := shows.serve_ready
  obtain ⟨hStations, hSaid⟩ := round_of_single hNode hServe
  have hRound : Hosts network.round execution.after
      (execution.session.run execution.actions).address .idle
      (execution.session.run execution.actions).trace.written.toArray :=
    ⟨by rw [hSaid, hReplies]; simp, next, hStations, hNext⟩
  refine ⟨execution, hCommands, hRequest, hHeader, hPosition, hAddress, hTrace, ?_⟩
  rw [Network.settle]
  split
  · exact hRound
  · exact hRound.settle rfl rounds

/-- What makes no request ready is heard and nothing else happens. -/
theorem Hosts.inject {bytes : List UInt8} {next : Packet}
    (hosts : Hosts network commands address packet replies)
    (hHear : ∀ node : Node C, node.Shows commands address packet [] →
      (hearAll node bytes).Shows commands address next [])
    (hWaiting : next.isReady = false) :
    Hosts (network.inject bytes) commands address next replies := by
  have hPatience : patience = 99999 + 1 := rfl
  rw [Network.inject, hPatience]
  exact (hosts.map hHear).settle hWaiting 99999

/-- What makes a request ready has it executed. -/
theorem Hosts.inject_ready {bytes : List UInt8}
    (hosts : Hosts network commands address packet #[])
    (hHear : ∀ node : Node C, node.Shows commands address packet [] →
      (hearAll node bytes).Shows commands address
        (.ready incoming.request incoming.bytes.length) []) :
    Executed (network.inject bytes) commands address incoming := by
  have hPatience : patience = 99998 + 2 := rfl
  rw [Network.inject, hPatience]
  exact (hosts.map hHear).settle_ready 99998

section Steady

variable [SteadyCommandSet C] (formed : incoming.WellFormed)
  (hTargets : incoming.header.targets address = true)
  (hAccept : (CommandSet.accept commands incoming.header).1 = .collect incoming.kind)

include formed hTargets hAccept

/-- A master that lets the node be served after each byte finds it served in time. -/
theorem Hosts.bytewise {done rest : List UInt8} (hSplit : done ++ rest = incoming.bytes)
    (hMore : rest ≠ [])
    (hosts : Hosts network commands address (.part incoming.header incoming.kind done) #[]) :
    Executed (rest.foldl (fun network byte => network.inject [byte]) network) commands address
      incoming := by
  induction rest generalizing done network with
  | nil => exact absurd rfl hMore
  | cons byte rest ih =>
      have hNext : done ++ [byte] ++ rest = incoming.bytes := by
        rw [List.append_assoc]
        exact hSplit
      cases rest with
      | nil =>
          exact hosts.inject_ready fun node shows =>
            shows.receive_last formed (by simpa using hNext)
      | cons second rest =>
          rw [List.foldl_cons]
          refine ih hNext (by simp) (hosts.inject (fun node shows => ?_) (Packet.isReady_part ..))
          exact shows.receive_part formed ⟨_, hNext⟩ (by rw [← hNext]; simp) hTargets hAccept

/-- A master that says everything first finds the node served as well. -/
theorem Hosts.packetwise
    (hosts : Hosts network commands address (.part incoming.header incoming.kind []) #[]) :
    Executed (network.inject incoming.bytes) commands address incoming :=
  hosts.inject_ready fun _ shows =>
    shows.receive_rest formed hTargets hAccept (List.nil_append _) incoming.bytes_ne_nil

/-- However the master speaks, a request to an idle node is executed once, on time. -/
theorem Hosts.transmit (hosts : Hosts network commands address .idle #[]) :
    Executed (network.transmit incoming.bytes) commands address incoming := by
  have hStart : Hosts { network with heard := network.heard ++ incoming.bytes } commands address
      (.part incoming.header incoming.kind []) #[] := hosts
  rw [Network.transmit]
  cases hMaster : network.master with
  | bytewise =>
      exact hStart.bytewise formed hTargets hAccept (List.nil_append _) incoming.bytes_ne_nil
  | packetwise waits =>
      have hForgot : Hosts { network with
          heard := network.heard ++ incoming.bytes
          replies := #[] } commands address (.part incoming.header incoming.kind []) #[] :=
        ⟨rfl, hStart.2⟩
      cases waits with
      | false => exact hForgot.packetwise formed hTargets hAccept
      | true =>
          have hSilent := hForgot.map fun node shows => Node.Shows.timeout shows
          exact hSilent.packetwise formed hTargets hAccept

end Steady

end Multidrop.Network
