import Multidrop.Proofs.Bootloader.Execution
import Multidrop.Proofs.Firmware.Execution
import Multidrop.Proofs.Flash.Read
import Multidrop.Proofs.Node.Reachable
import Multidrop.Proofs.Node.Reply

/-!
Whether a node keeps to the length that a packet declares. Names, the answers to queries that mean
nothing and memory are cut to what is left of the packet. All other replies are as long as they are,
and so is the checksum after memory: a packet that leaves no room for them is passed.
-/

namespace Multidrop

namespace Bootloader

/-- How many bytes answer a request when so many bytes of the packet are left. -/
def replySize (request : Request) (remaining : Nat) : Nat :=
  match request.header.command, request.payload with
  | .readMemory, .memory _ => 4 * ((remaining - 4) / 4) + 4
  | .flashFirmware, .page _ => 1
  | _, _ => Shared.replySize request remaining

theorem length_wordAt (flash : Flash) (address : UInt32) : (wordAt flash address).length = 4 := by
  unfold wordAt
  split
  · split
    · split
      · next hRead => exact Flash.length_of_read hRead
      · rfl
    · rfl
  · rfl

/-- As many words are read as are asked for. -/
theorem length_flatten_wordAt (flash : Flash) (address : UInt32) (count : Nat) :
    ((List.range count).map fun i =>
      wordAt flash (address + 4 * UInt32.ofNat i)).flatten.length = 4 * count := by
  induction count with
  | zero => rfl
  | succ count ih =>
      rw [List.range_succ, List.map_append, List.flatten_append, List.length_append, ih,
        List.map_singleton, List.flatten_singleton, length_wordAt, Nat.mul_succ]

/-- As many whole words as leave room for the checksum, and the checksum. -/
theorem length_readMemory (flash : Flash) (address : UInt32) (session : Session) :
    (Session.reply session.remaining (readMemory flash address session)).length =
      4 * ((session.remaining - 4) / 4) + 4 := by
  unfold readMemory
  dsimp only
  rw [Session.reply_append, Session.reply_sends, List.length_append, length_flatten_wordAt,
    Session.reply, Session.reply, List.append_nil, Action.bytes, length_toWire, size_word]

/-- The bootloader replies with as many bytes as the request has to expect. -/
theorem length_reply (bootloader : Bootloader) (request : Request) (session : Session) :
    (Session.reply session.remaining (execute bootloader request session).1).length =
      replySize request session.remaining := by
  unfold execute
  split
  · next hCommand => simp only [replySize, Shared.replySize, hCommand]; rfl
  · next hCommand => simp only [replySize, Shared.replySize, hCommand]; rfl
  · next address hCommand hPayload =>
      simp only [replySize, hCommand, hPayload]
      exact length_readMemory bootloader.flash address session
  · next hCommand hPayload =>
      cases hOther : request.payload with
      | memory address => exact absurd hOther (hPayload address)
      | _ => simp only [replySize, Shared.replySize, hCommand, hOther]; rfl
  · next page hCommand hPayload =>
      simp only [replySize, hCommand, hPayload, replacePage_eq]
      rfl
  · next hCommand hPayload =>
      cases hOther : request.payload with
      | page page => exact absurd hOther (hPayload page)
      | _ => simp only [replySize, Shared.replySize, hCommand, hOther]; rfl
  · next hCommand =>
      simp only [replySize, hCommand, share_eq]
      exact Shared.length_reply ..
  · next _ _ hRead hFlash _ _ _ =>
      have hShared : replySize request session.remaining =
          Shared.replySize request session.remaining := by
        unfold replySize
        split
        · next hCommand _ => exact absurd hCommand hRead
        · next hCommand _ => exact absurd hCommand hFlash
        · rfl
      rw [share_eq, hShared]
      exact Shared.length_reply ..

/-- A reply fits in what is left of the packet when its shortest form does. -/
theorem replySize_le_iff (request : Request) (remaining : Nat) :
    replySize request remaining ≤ remaining ↔ replySize request 0 ≤ remaining := by
  unfold replySize
  split
  · omega
  · exact Iff.rfl
  · exact Shared.replySize_le_iff request remaining

end Bootloader

/-- So does the firmware. -/
theorem Firmware.length_reply (firmware : Firmware) (request : Request) (session : Session) :
    (Session.reply session.remaining (execute firmware request session).1).length =
      Shared.replySize request session.remaining := by
  unfold execute
  split
  · next hCommand => simp only [Shared.replySize, hCommand]; rfl
  · next hCommand => simp only [Shared.replySize, hCommand]; rfl
  · next hCommand _ => simp only [Shared.replySize, hCommand]; rfl
  · next hCommand _ => simp only [Shared.replySize, hCommand]; rfl
  · next hCommand _ => simp only [Shared.replySize, hCommand]; rfl
  · next hCommand _ => simp only [Shared.replySize, hCommand]; rfl
  · rw [share_eq]
    exact Shared.length_reply ..

namespace Execution

variable {C : Type} [CommandSet C]

/-- The line at the end of an execution. -/
def ended (execution : Execution C) : Session :=
  execution.session.run execution.actions

/-- A request is answered with so many bytes, all of which are counted, and passes the length that
its packet declares if they are more than the packet leaves room for. -/
structure Answered (execution : Execution C) (size : Nat → Nat) : Prop where
  counted : execution.session.position ≤ execution.request.header.length.toNat
  sent : ∃ reply : List UInt8,
    execution.ended.trace.written = execution.session.trace.written ++ reply ∧
      reply.length = size execution.session.remaining ∧
      execution.ended.position = execution.session.position + reply.length
  within : execution.ended.position ≤ execution.request.header.length.toNat ↔
    size 0 ≤ execution.request.header.length.toNat - execution.session.position

/-- Whether a reply fits is known from the request. -/
theorem answered {execution : Execution C} {size : Nat → Nat}
    (hHeader : execution.session.header = execution.request.header)
    (hCounted : execution.session.position ≤ execution.request.header.length.toNat)
    (hSize : (Session.reply execution.session.remaining execution.actions).length =
      size execution.session.remaining)
    (hLeast : size execution.session.remaining ≤ execution.session.remaining ↔
      size 0 ≤ execution.session.remaining) : execution.Answered size := by
  obtain ⟨hWritten, hPosition⟩ := execution.session.run_spec execution.actions
  have hRemaining : execution.session.remaining =
      execution.request.header.length.toNat - execution.session.position := by
    rw [Session.remaining, hHeader]
  refine ⟨hCounted, ⟨_, hWritten, hSize, hPosition⟩, ?_⟩
  rw [← hRemaining, ← hLeast, ended, hPosition, hSize]
  omega

end Execution

/-- Whatever was on the line before and whatever length a packet declares, a request that is
executed counted no more bytes than it declares. It is answered with as many bytes as its command
takes, and the exchange ends within the declared length exactly if the shortest reply of the command
does. -/
theorem exchange_within_iff (address : UInt8) (events : List Node.Event) :
    (∀ bootloader : Bootloader, ∀ execution ∈ (Node.start bootloader address).executions events,
      execution.Answered (Bootloader.replySize execution.request)) ∧
    ∀ firmware : Firmware, ∀ execution ∈ (Node.start firmware address).executions events,
      execution.Answered (Shared.replySize execution.request) := by
  constructor
  · intro bootloader execution hMem
    obtain ⟨hHeader, hCounted⟩ := Node.sound_of_mem hMem
    exact Execution.answered hHeader hCounted
      (execution.commands.length_reply execution.request execution.session)
      (Bootloader.replySize_le_iff ..)
  · intro firmware execution hMem
    obtain ⟨hHeader, hCounted⟩ := Node.sound_of_mem hMem
    exact Execution.answered hHeader hCounted
      (execution.commands.length_reply execution.request execution.session)
      (Shared.replySize_le_iff ..)

/-- A firmware that is asked for its version in a packet that leaves room for one byte. -/
def askedShort : Node Firmware × List Node.Event :=
  (.start (.start ⟨#[], [], [], [], #[]⟩ {} [] 0x0102 []) 5,
    [7, 0, 5, 2, 3, 0].map .byte ++ [.poll])

/-- The version is sent as a whole, three bytes past the end of the packet. -/
theorem executions_askedShort :
    ∃ execution, askedShort.1.executions askedShort.2 = [execution] ∧
      execution.request.header.length.toNat = 7 ∧ execution.ended.position = 10 :=
  ⟨_, rfl, rfl, by decide⟩

/-- The packet that asks for the version is passed because four bytes do not fit in it. -/
theorem exchange_within_version :
    ∃ execution ∈ askedShort.1.executions askedShort.2,
      execution.ended.position = 10 ∧ execution.Answered (Shared.replySize execution.request) := by
  obtain ⟨execution, hOne, _, hEnd⟩ := executions_askedShort
  have hMem : execution ∈ askedShort.1.executions askedShort.2 := by simp [hOne]
  exact ⟨execution, hMem, hEnd, (exchange_within_iff 5 askedShort.2).2 _ execution hMem⟩

/-- Nodes do talk past the end of a packet. -/
theorem not_always_within :
    ¬ ∀ (firmware : Firmware) (address : UInt8) (events : List Node.Event),
      ∀ execution ∈ (Node.start firmware address).executions events,
        execution.ended.position ≤ execution.request.header.length.toNat := by
  intro hAlways
  obtain ⟨execution, hOne, hDeclared, hEnd⟩ := executions_askedShort
  have hWithin := hAlways _ 5 askedShort.2 execution (by
    change execution ∈ askedShort.1.executions askedShort.2
    simp [hOne])
  omega

end Multidrop
