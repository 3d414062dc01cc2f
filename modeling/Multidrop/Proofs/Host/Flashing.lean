import Multidrop.Proofs.Host.Observation
import Multidrop.Proofs.Host.Operation
import Multidrop.Proofs.Host.Preparation

/-!
Flashing an image, whatever the transport answers. The pages go out in their order and each of them
once, the next one only after the node acknowledged the one before, and the first that is not
acknowledged ends it all.
-/

namespace Multidrop.Host

/-- What became of a page, from its packet on. -/
inductive Trial where
  /-- The packet was not transmitted. -/
  | refused (error : Error)
  /-- After so many attempts that got nothing, an attempt to get the status failed. -/
  | failed (silent : Nat) (error : Error)
  /-- There were so many attempts, and none of them got anything. -/
  | unanswered (silent : Nat)
  /-- After so many attempts that got nothing, an attempt got a byte. -/
  | answered (silent : Nat) (byte : UInt8)
  deriving DecidableEq

namespace Trial

def sent : Trial → Except Error Unit
  | refused error => .error error
  | _ => .ok ()

/-- What was received, attempt by attempt. -/
def answers : Trial → List (Except Error (List UInt8))
  | refused _ => []
  | failed silent error => List.replicate silent (.ok []) ++ [.error error]
  | unanswered silent => List.replicate silent (.ok [])
  | answered silent byte => List.replicate silent (.ok []) ++ [.ok [byte]]

/-- An attempt, with the pause after it if it got nothing. -/
def attempt (delay : Nat) : Except Error (List UInt8) → List Deed
  | .ok [] => [.received (.ok []), .paused delay]
  | answer => [.received answer]

def deeds (trial : Trial) (delay : Nat) (packet : List UInt8) : List Deed :=
  .transmitted packet trial.sent :: trial.answers.flatMap (attempt delay)

/-- There are so many attempts, and fewer only if the last of them fails or gets a byte. -/
def Within (attempts : Nat) : Trial → Prop
  | refused _ => True
  | failed silent _ | answered silent _ => silent < attempts
  | unanswered silent => silent = attempts

/-- What the attempts came to. -/
def status : Trial → Except Error (Option FlashStatus)
  | refused error | failed _ error => .error error
  | unanswered _ => .ok none
  | answered _ byte => .ok (some (Coded.ofCode byte))

/-- The byte zero came. -/
def Acknowledged : Trial → Prop
  | answered _ byte => byte = 0
  | _ => False

/-- Why flashing ends with this page, unless it was acknowledged. -/
def error? (index : UInt16) : Trial → Option Error
  | refused error | failed _ error => some error
  | unanswered _ => some (.flash index none)
  | answered _ byte =>
    if byte = 0 then none else some (.flash index (some (Coded.ofCode byte)))

/-- The trial with one more attempt before it that got nothing. -/
def later : Trial → Trial
  | refused error => refused error
  | failed silent error => failed (silent + 1) error
  | unanswered silent => unanswered (silent + 1)
  | answered silent byte => answered (silent + 1) byte

theorem sent_later (trial : Trial) : trial.later.sent = trial.sent := by
  cases trial <;> rfl

/-- One attempt more in vain does not change what came in the end. -/
theorem status_later (trial : Trial) : trial.later.status = trial.status := by
  cases trial <;> rfl

variable {trial : Trial}

theorem answers_later (h : trial.sent = .ok ()) :
    trial.later.answers = .ok [] :: trial.answers := by
  cases trial with
  | refused error => cases h
  | failed silent error => rfl
  | unanswered silent => rfl
  | answered silent byte => rfl

/-- A trial with one attempt more is within one attempt more. -/
theorem Within.later {attempts : Nat} (within : trial.Within attempts) :
    trial.later.Within (attempts + 1) := by
  cases trial with
  | refused error => trivial
  | failed silent error => exact Nat.succ_lt_succ within
  | unanswered silent => exact congrArg (· + 1) within
  | answered silent byte => exact Nat.succ_lt_succ within

theorem deeds_of_sent (h : trial.sent = .ok ()) (delay : Nat) (packet : List UInt8) :
    [.transmitted packet (.ok ())] ++ trial.answers.flatMap (attempt delay) =
      trial.deeds delay packet := by
  rw [deeds, h]
  rfl

/-- There are no more answers than attempts. -/
theorem length_answers_le {attempts : Nat} (within : trial.Within attempts) :
    trial.answers.length ≤ attempts := by
  cases trial with
  | refused error => exact Nat.zero_le _
  | failed silent error =>
      rw [answers, List.length_append, List.length_replicate]
      exact within
  | unanswered silent =>
      rw [answers, List.length_replicate]
      exact Nat.le_of_eq within
  | answered silent byte =>
      rw [answers, List.length_append, List.length_replicate]
      exact within

/-- A trial transmits one packet. -/
theorem packets_deeds (trial : Trial) (delay : Nat) (packet : List UInt8) :
    (trial.deeds delay packet).filterMap Deed.packet? = [packet] := by
  have hNone : (trial.answers.flatMap (attempt delay)).filterMap Deed.packet? = [] := by
    rw [List.filterMap_eq_nil_iff]
    intro deed hMem
    obtain ⟨answer, _, hDeed⟩ := List.mem_flatMap.mp hMem
    rw [attempt.eq_def] at hDeed
    split at hDeed
    · rcases List.mem_pair.mp hDeed with rfl | rfl <;> rfl
    · rw [List.mem_singleton.mp hDeed]
      rfl
  rw [deeds, List.filterMap_cons, hNone]
  rfl

/-- An attempt that got nothing is no failure. -/
theorem failed_of_silent {delay silent : Nat} {deed : Deed}
    (h : deed ∈ (List.replicate silent (.ok [])).flatMap (attempt delay)) :
    deed.failed = false := by
  obtain ⟨answer, hAnswer, hDeed⟩ := List.mem_flatMap.mp h
  rw [List.eq_of_mem_replicate hAnswer, attempt] at hDeed
  rcases List.mem_pair.mp hDeed with rfl | rfl <;> rfl

/-- Nothing fails in a trial that came to a status, be it none. -/
theorem failed_of_status {status : Option FlashStatus} (hStatus : trial.status = .ok status)
    {delay : Nat} {packet : List UInt8} {deed : Deed} (h : deed ∈ trial.deeds delay packet) :
    deed.failed = false := by
  cases trial with
  | refused error => cases hStatus
  | failed silent error => cases hStatus
  | unanswered silent =>
      rcases List.mem_cons.mp h with rfl | hSilent
      · rfl
      · exact failed_of_silent hSilent
  | answered silent byte =>
      rw [deeds, answers, List.flatMap_append] at h
      rcases List.mem_cons.mp h with rfl | hPolls
      · rfl
      · rcases List.mem_append.mp hPolls with hSilent | hLast
        · exact failed_of_silent hSilent
        · rcases List.mem_singleton.mp hLast with rfl
          rfl

/-- Nothing is done for a page after something failed. -/
theorem failed_of_mem_dropLast {delay : Nat} {packet : List UInt8} {deed : Deed}
    (h : deed ∈ (trial.deeds delay packet).dropLast) : deed.failed = false := by
  cases trial with
  | refused error => cases h
  | failed silent error =>
      have hDeeds : (failed silent error).deeds delay packet =
          .transmitted packet (.ok ()) ::
            (List.replicate silent (.ok [])).flatMap (attempt delay) ++
              [.received (.error error)] := by
        rw [deeds, answers, List.flatMap_append]
        rfl
      rw [hDeeds, List.dropLast_concat] at h
      rcases List.mem_cons.mp h with rfl | hSilent
      · rfl
      · exact failed_of_silent hSilent
  | unanswered silent => exact failed_of_status rfl (List.dropLast_subset _ h)
  | answered silent byte => exact failed_of_status rfl (List.dropLast_subset _ h)

/-- Only zero stands for success. -/
theorem ofCode_eq_success_iff (byte : UInt8) :
    (Coded.ofCode byte : FlashStatus) = .success ↔ byte = 0 := by
  constructor
  · intro h
    simp only [Coded.ofCode] at h
    split at h
    · rfl
    all_goals cases h
  · rintro rfl
    rfl

/-- Flashing goes on after a page exactly if it was acknowledged. -/
theorem error?_eq_none_iff (trial : Trial) (index : UInt16) :
    trial.error? index = none ↔ trial.Acknowledged := by
  cases trial with
  | refused error => exact ⟨nofun, nofun⟩
  | failed silent error => exact ⟨nofun, nofun⟩
  | unanswered silent => exact ⟨nofun, nofun⟩
  | answered silent byte =>
      rw [error?, Acknowledged]
      by_cases hZero : byte = 0
      · rw [if_pos hZero, eq_self, true_iff]
        exact hZero
      · rw [if_neg hZero]
        exact ⟨nofun, fun h => absurd h hZero⟩

/-- Flashing ends with the error of the transport, if there was one. -/
theorem error?_of_error {error : Error} (h : trial.status = .error error) (index : UInt16) :
    trial.error? index = some error := by
  cases trial with
  | refused cause => cases h; rfl
  | failed silent cause => cases h; rfl
  | unanswered silent => cases h
  | answered silent byte => cases h

/-- Success is told exactly by an acknowledgement. -/
theorem status_eq_success_iff (trial : Trial) :
    trial.status = .ok (some .success) ↔ trial.Acknowledged := by
  cases trial with
  | refused error => exact ⟨nofun, nofun⟩
  | failed silent error => exact ⟨nofun, nofun⟩
  | unanswered silent => exact ⟨nofun, nofun⟩
  | answered silent byte =>
      rw [status, Except.ok.injEq, Option.some.injEq]
      exact ofCode_eq_success_iff byte

/-- Any other status ends it all. -/
theorem error?_of_status {status : Option FlashStatus} (h : trial.status = .ok status)
    (hStatus : status ≠ some .success) (index : UInt16) :
    trial.error? index = some (.flash index status) := by
  cases trial with
  | refused error => cases h
  | failed silent error => cases h
  | unanswered silent => cases h; rfl
  | answered silent byte =>
      cases h
      have hByte : byte ≠ 0 := fun hZero =>
        hStatus (congrArg some ((ofCode_eq_success_iff byte).mpr hZero))
      rw [error?, if_neg hByte]

end Trial

/-- To await a status is to try for it, so many times at most. -/
theorem does_awaitStatus (delay attempts : Nat) :
    Does (awaitStatus delay attempts) fun outcome deeds => ∃ trial : Trial,
      trial.sent = .ok () ∧ trial.Within attempts ∧ outcome = trial.status ∧
        deeds = trial.answers.flatMap (Trial.attempt delay) := by
  induction attempts with
  | zero => exact does_pure none ⟨.unanswered 0, rfl, rfl, rfl, rfl⟩
  | succ attempts ih =>
      refine (does_receive 1).bind (fun error deeds hFailed => ?_) fun bytes deeds hReceived => ?_
      · exact ⟨.failed 0 error, rfl, Nat.succ_pos attempts, rfl, hFailed.1⟩
      · obtain ⟨rfl, hShort⟩ := hReceived
        have hShort := hShort bytes rfl
        -- Nothing leads to the next attempt, a byte ends them, and there is no room for two.
        rcases bytes with _ | ⟨byte, _ | ⟨next, rest⟩⟩
        · refine (does_pause delay).bind (fun error deeds hPause => nomatch hPause.1) ?_
          rintro ⟨⟩ deeds ⟨-, rfl⟩
          refine ih.mono fun outcome more hMore => ?_
          obtain ⟨trial, hSent, within, hOutcome, rfl⟩ := hMore
          refine ⟨trial.later, trial.sent_later.trans hSent, within.later,
            hOutcome.trans trial.status_later.symm, ?_⟩
          rw [Trial.answers_later hSent]
          rfl
        · exact does_pure _ ⟨.answered 0 byte, rfl, Nat.succ_pos attempts, rfl, rfl⟩
        · simp only [List.length_cons] at hShort
          omega

/-- The packet that carries a page. -/
def pagePacket (node : UInt8) (page : UInt16 × List UInt8) : List UInt8 :=
  toWire (Header.ofLength (exchangeLength pagePayload 1) node .flashFirmware) ++
    pageRequest page.1 page.2

/-- A page makes a packet, since it is short enough for one. -/
theorem packet_page (node : UInt8) {page : UInt16 × List UInt8}
    (h : page.2.length = Layout.pageSize) :
    packet node .flashFirmware (pageRequest page.1 page.2) 1 = .ok (pagePacket node page) := by
  have hLength := length_pageRequest page.1 h
  rw [packet_of_fits (by rw [hLength]; decide), hLength, pagePacket]

/-- Pages in their order, as far as they are acknowledged, and the one that was not. -/
inductive Flashes (settings : Settings) (node : UInt8) :
    List (UInt16 × List UInt8) → List Trial → Except Error Unit → List Deed → Prop where
  | done : Flashes settings node [] [] (.ok ()) []
  | next {page : UInt16 × List UInt8} {rest : List (UInt16 × List UInt8)} {trial : Trial}
      {trials : List Trial} {outcome : Except Error Unit} {deeds : List Deed}
      (within : trial.Within settings.flashAttempts) (acknowledged : trial.Acknowledged)
      (more : Flashes settings node rest trials outcome deeds) :
      Flashes settings node (page :: rest) (trial :: trials) outcome
        (trial.deeds settings.flashRetryDelay (pagePacket node page) ++ deeds)
  | stopped {page : UInt16 × List UInt8} {rest : List (UInt16 × List UInt8)} {trial : Trial}
      {error : Error} (within : trial.Within settings.flashAttempts)
      (hError : trial.error? page.1 = some error) :
      Flashes settings node (page :: rest) [trial] (.error error)
        (trial.deeds settings.flashRetryDelay (pagePacket node page))

/-- To flash pages is to try for each of them in turn, up to the first that is not acknowledged. -/
theorem does_flashPages (settings : Settings) (node : UInt8) {pages : List (UInt16 × List UInt8)}
    (hPages : ∀ page ∈ pages, page.2.length = Layout.pageSize) :
    Does (flashPages settings node pages) fun outcome deeds =>
      ∃ trials, Flashes settings node pages trials outcome deeds := by
  induction pages with
  | nil => exact does_pure () ⟨[], .done⟩
  | cons page rest ih =>
      obtain ⟨index, data⟩ := page
      have hRest := ih fun page hMem => hPages page (List.mem_cons_of_mem _ hMem)
      have hPacket := packet_page node (hPages (index, data) (List.mem_cons_self ..))
      rw [flashPages, request, hPacket]
      refine (does_transmit (pagePacket node (index, data))).bind ?_ fun _ sent hSent => ?_
      · rintro error deeds rfl
        exact ⟨[.refused error], .stopped trivial rfl⟩
      · subst hSent
        -- What was done since the packet makes up a trial, however the attempts ended.
        refine (does_awaitStatus settings.flashRetryDelay settings.flashAttempts).bind ?_ ?_
        · rintro error deeds ⟨trial, hSent, within, hStatus, rfl⟩
          rw [Trial.deeds_of_sent hSent]
          exact ⟨[trial], .stopped within (Trial.error?_of_error hStatus.symm index)⟩
        · rintro status deeds ⟨trial, hSent, within, hStatus, rfl⟩
          split
          · refine hRest.mono fun outcome more hMore => ?_
            obtain ⟨trials, flashes⟩ := hMore
            rw [← List.append_assoc, Trial.deeds_of_sent hSent]
            exact ⟨trial :: trials,
              .next within (trial.status_eq_success_iff.mp hStatus.symm) flashes⟩
          · next hOther =>
              refine does_throw _ ?_
              rw [List.append_nil, Trial.deeds_of_sent hSent]
              exact ⟨[trial], .stopped within (Trial.error?_of_status hStatus.symm hOther index)⟩

namespace Flashes

variable {settings : Settings} {node : UInt8} {pages : List (UInt16 × List UInt8)}
  {trials : List Trial} {outcome : Except Error Unit} {deeds : List Deed}

/-- No page is tried for twice. -/
theorem length_le (flashes : Flashes settings node pages trials outcome deeds) :
    trials.length ≤ pages.length := by
  induction flashes with
  | done => exact Nat.le_refl _
  | next _ _ _ ih => exact Nat.succ_le_succ ih
  | stopped => exact Nat.succ_le_succ (Nat.zero_le _)

/-- What was done is what each of the trials did, one after the other. -/
theorem deeds_eq (flashes : Flashes settings node pages trials outcome deeds) :
    deeds = (List.zipWith (fun page trial =>
      trial.deeds settings.flashRetryDelay (pagePacket node page)) pages trials).flatten := by
  induction flashes with
  | done => rfl
  | next _ _ _ ih => rw [List.zipWith_cons_cons, List.flatten_cons, ← ih]
  | stopped => rw [List.zipWith_cons_cons, List.zipWith_nil_right, List.flatten_singleton]

/-- The packets are those of the first pages, each once and in order. -/
theorem packets_eq (flashes : Flashes settings node pages trials outcome deeds) :
    deeds.filterMap Deed.packet? = (pages.map (pagePacket node)).take trials.length := by
  induction flashes with
  | done => rfl
  | next _ _ _ ih =>
      rw [List.filterMap_append, Trial.packets_deeds, ih]
      rfl
  | stopped => rw [Trial.packets_deeds]; rfl

/-- Each page is tried for within the attempts that are allowed. -/
theorem within (flashes : Flashes settings node pages trials outcome deeds) :
    ∀ trial ∈ trials, trial.Within settings.flashAttempts := by
  induction flashes with
  | done => nofun
  | next within _ _ ih => exact List.forall_mem_cons.mpr ⟨within, ih⟩
  | stopped within => exact List.forall_mem_singleton.mpr within

/-- All pages but the last one that was tried for were acknowledged. -/
theorem acknowledged (flashes : Flashes settings node pages trials outcome deeds) :
    ∀ trial ∈ trials.dropLast, trial.Acknowledged := by
  induction flashes with
  | done => nofun
  | @next _ _ trial trials _ _ _ acknowledged _ ih =>
      rcases trials with _ | ⟨second, more⟩
      · nofun
      · exact List.forall_mem_cons.mpr ⟨acknowledged, ih⟩
  | stopped => nofun

/-- Flashing succeeds exactly if every page was acknowledged. -/
theorem ok_iff (flashes : Flashes settings node pages trials outcome deeds) :
    outcome = .ok () ↔
      trials.length = pages.length ∧ ∀ trial ∈ trials, trial.Acknowledged := by
  induction flashes with
  | done => exact ⟨fun _ => ⟨rfl, nofun⟩, fun _ => rfl⟩
  | next _ acknowledged _ ih =>
      rw [ih, List.length_cons, List.length_cons, Nat.succ_inj, List.forall_mem_cons]
      exact and_congr_right fun _ => (and_iff_right acknowledged).symm
  | @stopped page rest trial error _ hError =>
      refine ⟨nofun, fun ⟨_, hAll⟩ => ?_⟩
      rw [(trial.error?_eq_none_iff page.1).mpr (List.forall_mem_singleton.mp hAll)] at hError
      cases hError

/-- Flashing fails exactly with the error of the last page that was tried for. -/
theorem error_iff (flashes : Flashes settings node pages trials outcome deeds) (error : Error) :
    outcome = .error error ↔ ∃ page trial, (pages.zip trials).getLast? = some (page, trial) ∧
      trial.error? page.1 = some error := by
  induction flashes with
  | done => exact ⟨nofun, nofun⟩
  | @next page rest trial trials outcome deeds _ acknowledged more ih =>
      rw [ih, List.zip_cons_cons]
      -- The last trial is one of the rest, unless this one is the last and nothing went wrong.
      cases more with
      | done =>
          refine ⟨nofun, ?_⟩
          rintro ⟨_, _, ⟨⟩, hError⟩
          rw [(trial.error?_eq_none_iff page.1).mpr acknowledged] at hError
          cases hError
      | next => rw [List.zip_cons_cons, List.getLast?_cons_cons]
      | stopped => rw [List.zip_cons_cons, List.getLast?_cons_cons]
  | @stopped page rest trial cause _ hError =>
      rw [List.zip_cons_cons, List.zip_nil_right, List.getLast?_singleton]
      constructor
      · rintro ⟨⟩
        exact ⟨page, trial, rfl, hError⟩
      · rintro ⟨_, _, ⟨⟩, hOther⟩
        rw [hError] at hOther
        cases hOther
        rfl

/-- Nothing follows what the transport failed to do. -/
theorem failed_of_mem_dropLast (flashes : Flashes settings node pages trials outcome deeds) :
    ∀ deed ∈ deeds.dropLast, deed.failed = false := by
  induction flashes with
  | done => nofun
  | @next page rest trial trials outcome deeds _ acknowledged _ ih =>
      have hTrial : ∀ deed ∈ trial.deeds settings.flashRetryDelay (pagePacket node page),
          deed.failed = false :=
        fun _ => Trial.failed_of_status (trial.status_eq_success_iff.mpr acknowledged)
      intro deed hMem
      by_cases hLast : deeds = []
      · rw [hLast, List.append_nil] at hMem
        exact hTrial deed (List.dropLast_subset _ hMem)
      · rw [List.dropLast_append_of_ne_nil hLast] at hMem
        exact (List.mem_append.mp hMem).elim (hTrial deed) (ih deed)
  | stopped => exact fun _ => Trial.failed_of_mem_dropLast

end Flashes

/-- Packets of different pages differ. -/
theorem index_of_pagePacket {node : UInt8} {first second : UInt16 × List UInt8}
    (h : pagePacket node first = pagePacket node second) : first.1 = second.1 := by
  have hRequest := List.append_cancel_left h
  rw [pageRequest, pageRequest, List.append_assoc, List.append_assoc] at hRequest
  have hIndex := List.append_inj_left hRequest (by rw [length_toWire, length_toWire])
  rw [← ofWire_toWire first.1, hIndex, ofWire_toWire]

/-- The packets of an image differ, since their pages have different indices. -/
theorem nodup_pagePackets {image : Image} (fits : image.bytes.length ≤ Layout.firmwareMaxSize)
    (node : UInt8) : (image.pages.map (pagePacket node)).Nodup := by
  have hIndices : (image.pages.map (·.1.toNat)).Nodup :=
    image.index_pages fits ▸ List.nodup_range'
  rw [List.Nodup, List.pairwise_map] at hIndices ⊢
  exact hIndices.imp fun hDistinct hSame =>
    hDistinct (congrArg UInt16.toNat (index_of_pagePacket hSame))

/-- How flashing an image went: what became of its pages, what it came to and what was done. -/
structure Flashing (settings : Settings) (node : UInt8) (image : Image) (trials : List Trial)
    (outcome : Except Error Unit) (deeds : List Deed) : Prop where
  /-- The pages follow each other from the first page of the firmware on. -/
  index : image.pages.map (·.1.toNat) =
    List.range' Layout.firmwareStartPage image.pages.length
  /-- The first pages are tried in their order. -/
  few : trials.length ≤ image.pages.length
  packets : deeds.filterMap Deed.packet? =
    (image.pages.map (pagePacket node)).take trials.length
  /-- No two pages have the same packet. -/
  once : (image.pages.map (pagePacket node)).Nodup
  /-- A packet is followed by the attempts to get its status, and these by the next packet. -/
  done : deeds = (List.zipWith (fun page trial =>
    trial.deeds settings.flashRetryDelay (pagePacket node page)) image.pages trials).flatten
  within : ∀ trial ∈ trials, trial.Within settings.flashAttempts ∧
    trial.answers.length ≤ settings.flashAttempts
  /-- There is a next page only if the node acknowledged the one before it. -/
  acknowledged : ∀ trial ∈ trials.dropLast, trial.Acknowledged
  ok_iff : outcome = .ok () ↔
    trials.length = image.pages.length ∧ ∀ trial ∈ trials, trial.Acknowledged
  /-- An error is the one of the last page that was tried. -/
  error_iff : ∀ error, outcome = .error error ↔ ∃ page trial,
    (image.pages.zip trials).getLast? = some (page, trial) ∧ trial.error? page.1 = some error
  /-- After an error of the transport nothing is done. -/
  failed : ∀ deed ∈ deeds.dropLast, deed.failed = false

/-- Whatever the transport answers, the pages go out in their order and each of them once, each
after the one before it was acknowledged, and the first that is not acknowledged is the one in the
error. -/
theorem flashing {data : List UInt8} {image : Image} (h : Image.prepare data = .ok image)
    (settings : Settings) (node : UInt8) (observed : Observed) :
    let call : Call (StateM Observed) Unit := flashFirmware settings node image
    ∃ deeds trials, (call.run.run observed).2 = observed.after deeds ∧
      Flashing settings node image trials (call.run.run observed).1 deeds := by
  have fits := (Image.wellFormed_of_prepare h).fits
  have hIndex : image.pages.map (·.1.toNat) =
      List.range' Layout.firmwareStartPage image.pages.length := by
    have hPages := image.index_pages fits
    have hLength := congrArg List.length hPages
    rw [List.length_map, List.length_range'] at hLength
    rw [hPages, hLength]
  have hPages : ∀ page ∈ image.pages, page.2.length = Layout.pageSize :=
    fun _ => Image.length_of_mem_pages
  obtain ⟨deeds, hAfter, trials, flashes⟩ := does_flashPages settings node hPages observed
  refine ⟨deeds, trials, hAfter, hIndex, flashes.length_le, flashes.packets_eq,
    nodup_pagePackets fits node, flashes.deeds_eq, fun trial hMem => ?_, flashes.acknowledged,
    flashes.ok_iff, flashes.error_iff, flashes.failed_of_mem_dropLast⟩
  have within := flashes.within trial hMem
  exact ⟨within, Trial.length_answers_le within⟩

/-- A node that is silent at first and then finds the first page bad. -/
theorem flashing_bad_page :
    let observed : Observed :=
      { transmits := fun _ _ => .ok ()
        receives := fun deeds _ => .ok (if deeds.length < 3 then [] else [1]) }
    ∃ image : Image, Image.prepare (List.replicate 348 0) = .ok image ∧
      let call : Call (StateM Observed) Unit := flashFirmware {} 3 image
      (call.run.run observed).1 = .error (.flash 4 (some .badPage)) ∧
        ∃ deeds trials, (call.run.run observed).2 = observed.after deeds ∧
          Flashing {} 3 image trials (call.run.run observed).1 deeds := by
  intro observed
  have hData : (List.replicate 348 (0 : UInt8)).length = 348 := List.length_replicate
  obtain ⟨image, h⟩ := Image.prepare_total (by rw [hData]; decide) (by rw [hData]; decide)
  refine ⟨image, h, ?_, flashing h {} 3 observed⟩
  have hFirst : ∃ data rest, image.pages = (4, data) :: rest := by
    have hSome : 0 < image.bytes.length / Layout.pageSize :=
      Nat.div_pos (Image.wellFormed_of_prepare h).nonempty (by decide)
    obtain ⟨count, hCount⟩ := Nat.exists_eq_add_of_le' hSome
    rw [Image.pages, hCount, List.range_succ_eq_map]
    exact ⟨_, _, rfl⟩
  obtain ⟨data, rest, hPages⟩ := hFirst
  have hPacket := packet_page 3 (Image.length_of_mem_pages (hPages ▸ List.mem_cons_self ..))
  rw [flashFirmware, hPages, flashPages, request, hPacket]
  rfl

end Multidrop.Host
