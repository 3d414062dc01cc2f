import Multidrop.Flash

/-!
What a flash holds after it was changed, byte by byte, and flashes that were changed only inside a
range. A flash is told apart from an earlier state of itself by the changes it accepted in between,
so that "nothing outside was touched" speaks of the calls as well as of the bytes.
-/

namespace Multidrop.Flash

/-- To program a flash does not make it longer or shorter. -/
@[simp] theorem size_programmed (stuck : List Nat) (offset : Nat) (data : List UInt8)
    (bytes : Array UInt8) : (programmed stuck offset data bytes).size = bytes.size := by
  induction data generalizing offset bytes with
  | nil => rfl
  | cons byte rest ih =>
      rw [programmed, ih]
      split <;> simp

/-- Nor does to erase it. -/
@[simp] theorem size_erased (stuck : List Nat) (offset length : Nat) (bytes : Array UInt8) :
    (erased stuck offset length bytes).size = bytes.size := by
  induction length generalizing offset bytes with
  | zero => rfl
  | succ length ih =>
      rw [erased, ih]
      split <;> simp

theorem getElem?_kept_or_modify (kept : Bool) (bytes : Array UInt8) (place : Nat)
    (change : UInt8 → UInt8) (i : Nat) :
    (if kept then bytes else bytes.modify place change)[i]? =
      if place = i ∧ kept = false then bytes[i]?.map change else bytes[i]? := by
  cases kept <;> simp [Array.getElem?_modify]

@[simp] theorem map_and_ones (byte : Option UInt8) : byte.map (· &&& 0xFF) = byte := by
  cases byte with
  | none => rfl
  | some byte => exact congrArg some UInt8.and_neg_one

/-- Programming clears bits inside the data, but for stuck words. Past the end of the data nothing
is cleared. -/
theorem getElem?_programmed (stuck : List Nat) (offset : Nat) (data : List UInt8)
    (bytes : Array UInt8) (i : Nat) :
    (programmed stuck offset data bytes)[i]? =
      if offset ≤ i ∧ stuck.contains (i / wordSize * wordSize) = false then
        bytes[i]?.map (· &&& data.getD (i - offset) 0xFF)
      else bytes[i]? := by
  induction data generalizing offset bytes with
  | nil => simp [programmed]
  | cons byte rest ih =>
      rw [programmed, ih, getElem?_kept_or_modify]
      rcases Nat.lt_trichotomy i offset with hBefore | rfl | hAfter
      · have hHere : ¬offset ≤ i := by omega
        have hNext : ¬offset + 1 ≤ i := by omega
        have hOther : offset ≠ i := by omega
        simp only [hHere, hNext, hOther, false_and, if_false]
      · have hNext : ¬i + 1 ≤ i := by omega
        simp only [hNext, Nat.le_refl, true_and, false_and, if_false, Nat.sub_self,
          List.getD_cons_zero]
      · have hHere : offset ≤ i := by omega
        have hNext : offset + 1 ≤ i := by omega
        have hOther : offset ≠ i := by omega
        have hIndex : i - offset = i - (offset + 1) + 1 := by omega
        simp only [hHere, hNext, hOther, true_and, false_and, if_false, hIndex,
          List.getD_cons_succ]

/-- Erasing sets all bits of the range, but for stuck pages. -/
theorem getElem?_erased (stuck : List Nat) (offset length : Nat) (bytes : Array UInt8) (i : Nat) :
    (erased stuck offset length bytes)[i]? =
      if (offset ≤ i ∧ i < offset + length) ∧
          stuck.contains (i / Layout.pageSize * Layout.pageSize) = false then
        bytes[i]?.map fun _ => 0xFF
      else bytes[i]? := by
  induction length generalizing offset bytes with
  | zero =>
      have hNone : ¬(offset ≤ i ∧ i < offset + 0) := by omega
      simp only [erased, hNone, false_and, if_false]
  | succ length ih =>
      rw [erased, ih, getElem?_kept_or_modify]
      by_cases hOther : offset = i
      · subst hOther
        have hNext : ¬(offset + 1 ≤ offset ∧ offset < offset + 1 + length) := by omega
        have hHere : offset ≤ offset ∧ offset < offset + (length + 1) := by omega
        simp only [hNext, hHere, and_self, true_and, false_and, if_false]
      · have hRange : offset + 1 ≤ i ∧ i < offset + 1 + length ↔
            offset ≤ i ∧ i < offset + (length + 1) := by omega
        simp only [hRange, hOther, false_and, if_false]

/-! ## Changes carried out in order -/

def Change.start : Change → Nat
  | .erase start _ => start
  | .program offset _ => offset

def Change.stop : Change → Nat
  | .erase _ stop => stop
  | .program offset data => offset + data.length

/-- The flash after it accepted a change. -/
def carryOut (flash : Flash) (change : Change) : Flash :=
  { flash with
    bytes :=
      match change with
      | .erase start stop => erased flash.stuckPages start (stop - start) flash.bytes
      | .program offset data => programmed flash.stuckWords offset data flash.bytes
    history := flash.history.push change }

/-- The flash after it accepted changes, one after the other. -/
def replay (flash : Flash) (changes : List Change) : Flash :=
  changes.foldl carryOut flash

@[simp] theorem replay_nil (flash : Flash) : flash.replay [] = flash := rfl

@[simp] theorem replay_cons (flash : Flash) (change : Change) (changes : List Change) :
    flash.replay (change :: changes) = (flash.carryOut change).replay changes := rfl

/-- Changes can be replayed in two parts. -/
theorem replay_append (flash : Flash) (first second : List Change) :
    flash.replay (first ++ second) = (flash.replay first).replay second :=
  List.foldl_append

@[simp] theorem faults_carryOut (flash : Flash) (change : Change) :
    (flash.carryOut change).faults = flash.faults := rfl

@[simp] theorem faults_replay (flash : Flash) (changes : List Change) :
    (flash.replay changes).faults = flash.faults := by
  induction changes generalizing flash with
  | nil => rfl
  | cons change rest ih => exact ih _

@[simp] theorem stuckPages_replay (flash : Flash) (changes : List Change) :
    (flash.replay changes).stuckPages = flash.stuckPages := by
  induction changes generalizing flash with
  | nil => rfl
  | cons change rest ih => exact ih _

@[simp] theorem stuckWords_replay (flash : Flash) (changes : List Change) :
    (flash.replay changes).stuckWords = flash.stuckWords := by
  induction changes generalizing flash with
  | nil => rfl
  | cons change rest ih => exact ih _

@[simp] theorem size_carryOut (flash : Flash) (change : Change) :
    (flash.carryOut change).bytes.size = flash.bytes.size := by
  cases change <;> simp [carryOut]

@[simp] theorem size_replay (flash : Flash) (changes : List Change) :
    (flash.replay changes).bytes.size = flash.bytes.size := by
  induction changes generalizing flash with
  | nil => rfl
  | cons change rest ih => exact (ih _).trans (size_carryOut flash change)

/-- A change leaves the bytes around it alone. -/
theorem getElem?_carryOut_of_outside (flash : Flash) (change : Change) (i : Nat)
    (h : i < change.start ∨ change.stop ≤ i) :
    (flash.carryOut change).bytes[i]? = flash.bytes[i]? := by
  cases change with
  | erase start stop =>
      have hOut : ¬(start ≤ i ∧ i < start + (stop - start)) := by
        simp only [Change.start, Change.stop] at h
        omega
      rw [carryOut, getElem?_erased, if_neg fun hIn => hOut hIn.1]
  | program offset data =>
      simp only [Change.start, Change.stop] at h
      simp only [carryOut, getElem?_programmed]
      split
      case isTrue hIn =>
        have hEnd : data.length ≤ i - offset := by omega
        rw [List.getD_eq_getElem?_getD, List.getElem?_eq_none hEnd, Option.getD_none, map_and_ones]
      case isFalse => rfl

/-- A flash that was changed by calls that all lie inside a range. -/
def Confined (start stop : Nat) (before after : Flash) : Prop :=
  ∃ changes : List Change, after = before.replay changes ∧
    ∀ change ∈ changes, start ≤ change.start ∧ change.stop ≤ stop

namespace Confined

variable {start stop : Nat} {before between after : Flash}

theorem refl (start stop : Nat) (flash : Flash) : Confined start stop flash flash :=
  ⟨[], rfl, by simp⟩

/-- One change after the other is confined to what both are confined to. -/
theorem trans (first : Confined start stop before between)
    (second : Confined start stop between after) : Confined start stop before after := by
  obtain ⟨changes, rfl, hChanges⟩ := first
  obtain ⟨more, rfl, hMore⟩ := second
  refine ⟨changes ++ more, (replay_append ..).symm, ?_⟩
  intro change hMem
  rcases List.mem_append.mp hMem with h | h
  · exact hChanges change h
  · exact hMore change h

/-- What is confined to a range is confined to a larger one. -/
theorem mono {start' stop' : Nat} (confined : Confined start stop before after)
    (hStart : start' ≤ start) (hStop : stop ≤ stop') : Confined start' stop' before after := by
  obtain ⟨changes, rfl, hChanges⟩ := confined
  refine ⟨changes, rfl, fun change hMem => ?_⟩
  have := hChanges change hMem
  omega

/-- A single change is confined to where it lies. -/
theorem single (flash : Flash) (change : Change) (hStart : start ≤ change.start)
    (hStop : change.stop ≤ stop) : Confined start stop flash (flash.carryOut change) :=
  ⟨[change], rfl, by simpa using ⟨hStart, hStop⟩⟩

/-- To erase is confined to the pages that are erased. -/
theorem of_erase (flash : Flash) (start stop : Nat) :
    Confined start stop flash (flash.carryOut (.erase start stop)) :=
  single flash (.erase start stop) (Nat.le_refl _) (Nat.le_refl _)

/-- To program is confined to as many bytes as are programmed. -/
theorem of_program (flash : Flash) (offset : Nat) (data : List UInt8) :
    Confined offset (offset + data.length) flash (flash.carryOut (.program offset data)) :=
  single flash (.program offset data) (Nat.le_refl _) (Nat.le_refl _)

theorem faults (confined : Confined start stop before after) : after.faults = before.faults := by
  obtain ⟨changes, rfl, _⟩ := confined
  exact faults_replay ..

theorem stuckPages (confined : Confined start stop before after) :
    after.stuckPages = before.stuckPages := by
  obtain ⟨changes, rfl, _⟩ := confined
  exact stuckPages_replay ..

theorem stuckWords (confined : Confined start stop before after) :
    after.stuckWords = before.stuckWords := by
  obtain ⟨changes, rfl, _⟩ := confined
  exact stuckWords_replay ..

/-- A change does not make a flash longer or shorter. -/
theorem size (confined : Confined start stop before after) :
    after.bytes.size = before.bytes.size := by
  obtain ⟨changes, rfl, _⟩ := confined
  exact size_replay ..

/-- No byte outside the range is changed. -/
theorem outside (confined : Confined start stop before after) {i : Nat}
    (h : i < start ∨ stop ≤ i) : after.bytes[i]? = before.bytes[i]? := by
  obtain ⟨changes, rfl, hChanges⟩ := confined
  induction changes generalizing before with
  | nil => rfl
  | cons change rest ih =>
      have hRange := hChanges change (by simp)
      rw [replay_cons, ih fun other hMem => hChanges other (by simp [hMem])]
      exact getElem?_carryOut_of_outside before change i (by omega)

end Confined

/-- A byte that is not what it was before, or that was erased or programmed since then. -/
def Touches (before after : Flash) (i : Nat) : Prop :=
  after.bytes[i]? ≠ before.bytes[i]? ∨
    ∃ change ∈ after.history.toList.drop before.history.size, change.start ≤ i ∧ i < change.stop

/-- A flash remembers its changes in their order. -/
theorem history_replay (flash : Flash) (changes : List Change) :
    (flash.replay changes).history.toList = flash.history.toList ++ changes := by
  induction changes generalizing flash with
  | nil => simp
  | cons change rest ih => simp [ih, carryOut]

/-- What a flash accepted is what it remembers besides what it remembered before. -/
theorem history_since (flash : Flash) (changes : List Change) :
    (flash.replay changes).history.toList.drop flash.history.size = changes := by
  rw [history_replay, ← Array.length_toList, List.drop_left]

/-- A change touches each byte where it lies. -/
theorem touches_carryOut (flash : Flash) {change : Change} {i : Nat} (hStart : change.start ≤ i)
    (hStop : i < change.stop) : Touches flash (flash.carryOut change) i := by
  have hSince := flash.history_since [change]
  rw [replay_cons, replay_nil] at hSince
  rw [Touches, hSince]
  exact .inr ⟨change, List.mem_singleton_self change, hStart, hStop⟩

theorem not_touches_self (flash : Flash) (i : Nat) : ¬ Touches flash flash i := by
  have hSince := flash.history_since []
  rw [replay_nil] at hSince
  rw [Touches, hSince]
  simp

/-- What is touched lies in the range that the flash was changed in. -/
theorem Confined.of_touches {start stop : Nat} {before after : Flash} {i : Nat}
    (confined : Confined start stop before after) (h : Touches before after i) :
    start ≤ i ∧ i < stop := by
  rcases h with hByte | ⟨change, hMem, hCovered⟩
  · have hInside : ¬(i < start ∨ stop ≤ i) := fun hOutside => hByte (confined.outside hOutside)
    omega
  · obtain ⟨changes, rfl, hChanges⟩ := confined
    rw [history_since] at hMem
    have hRange := hChanges change hMem
    omega

/-! ## What the operations accept -/

/-- To program is refused, or it is carried out. -/
theorem program_eq (flash : Flash) (offset : Nat) (data : List UInt8) :
    flash.program offset data =
      match flash.programRefusal? offset data.length with
      | some error => (.error error, flash)
      | none => (.ok (), flash.carryOut (.program offset data)) :=
  rfl

/-- To erase is refused, or it is carried out. -/
theorem erase_eq (flash : Flash) (start stop : Nat) :
    flash.erase start stop =
      match flash.eraseRefusal? start stop with
      | some error => (.error error, flash)
      | none => (.ok (), flash.carryOut (.erase start stop)) :=
  rfl

/-- What is refused is not done at all. -/
theorem erase_cases (flash : Flash) (start stop : Nat) :
    (∃ error, flash.erase start stop = (.error error, flash)) ∨
      flash.erase start stop = (.ok (), flash.carryOut (.erase start stop)) := by
  rw [erase_eq]
  cases flash.eraseRefusal? start stop with
  | some error => exact .inl ⟨error, rfl⟩
  | none => exact .inr rfl

/-- Whether it is refused or not, programming changes nothing around the data. -/
theorem program_confined (flash : Flash) (offset : Nat) (data : List UInt8) :
    Confined offset (offset + data.length) flash (flash.program offset data).2 := by
  rw [program_eq]
  split
  · exact .refl ..
  · exact .of_program ..

/-- Whether it is refused or not, erasing changes nothing around the pages. -/
theorem erase_confined (flash : Flash) (start stop : Nat) :
    Confined start stop flash (flash.erase start stop).2 := by
  rw [erase_eq]
  split
  · exact .refl ..
  · exact .of_erase ..

/-- A piece is refused and ends the whole, or is carried out. -/
theorem programAll_cons (flash : Flash) (offset : Nat) (piece : List UInt8)
    (rest : List (List UInt8)) :
    flash.programAll offset (piece :: rest) =
      match flash.programRefusal? offset piece.length with
      | some error => (.error error, flash)
      | none =>
        (flash.carryOut (.program offset piece)).programAll (offset + piece.length) rest := by
  rw [programAll, program_eq]
  cases flash.programRefusal? offset piece.length <;> rfl

/-- The changes made by programming pieces one after the other from an offset on. -/
def programs (offset : Nat) : List (List UInt8) → List Change
  | [] => []
  | piece :: rest => .program offset piece :: programs (offset + piece.length) rest

/-- Programming pieces may stop anywhere, and tells whether it came to the end. -/
theorem programAll_replay (flash : Flash) (offset : Nat) (pieces : List (List UInt8)) :
    ∃ accepted, accepted <+: programs offset pieces ∧
      (flash.programAll offset pieces).2 = flash.replay accepted ∧
      ((flash.programAll offset pieces).1 = .ok () ↔ accepted = programs offset pieces) := by
  induction pieces generalizing flash offset with
  | nil => exact ⟨[], List.prefix_rfl, rfl, by simp [programAll, programs]⟩
  | cons piece rest ih =>
      rw [programAll_cons, programs]
      cases flash.programRefusal? offset piece.length with
      | some error => exact ⟨[], List.nil_prefix, rfl, by simp⟩
      | none =>
          obtain ⟨accepted, hPrefix, hFlash, hOk⟩ :=
            ih (flash.carryOut (.program offset piece)) (offset + piece.length)
          refine ⟨.program offset piece :: accepted, ?_, hFlash, ?_⟩
          · exact List.cons_prefix_cons.mpr ⟨rfl, hPrefix⟩
          · exact hOk.trans (List.cons_inj_right _).symm

/-- However far programming pieces comes, it stays in the range they take. -/
theorem Confined.of_programs {offset : Nat} {pieces : List (List UInt8)} {accepted : List Change}
    (hPrefix : accepted <+: programs offset pieces) (flash : Flash) :
    Confined offset (offset + pieces.flatten.length) flash (flash.replay accepted) := by
  induction pieces generalizing flash offset accepted with
  | nil =>
      rw [List.prefix_nil.mp hPrefix]
      exact .refl ..
  | cons piece rest ih =>
      rw [List.flatten_cons, List.length_append]
      cases accepted with
      | nil => exact .refl ..
      | cons change accepted =>
          obtain ⟨rfl, hRest⟩ := List.cons_prefix_cons.mp hPrefix
          exact ((Confined.of_program flash offset piece).mono (Nat.le_refl _) (by omega)).trans
            ((ih hRest _).mono (by omega) (by omega))

/-- To program pieces one after the other changes nothing around them, wherever it stops. -/
theorem programAll_confined (flash : Flash) (offset : Nat) (pieces : List (List UInt8)) :
    Confined offset (offset + pieces.flatten.length) flash (flash.programAll offset pieces).2 := by
  obtain ⟨accepted, hPrefix, hFlash, _⟩ := flash.programAll_replay offset pieces
  rw [hFlash]
  exact .of_programs hPrefix flash

end Multidrop.Flash
