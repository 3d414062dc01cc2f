import Multidrop.Node.Shared
import Multidrop.Proofs.Store.Log

/-!
The store keeps to its region. Whatever the flash holds, and whatever it refuses, nothing that is
done to a store, by a node or otherwise, touches a byte outside of it.
-/

namespace Multidrop

theorem length_words (bytes : List UInt8) : (words bytes).length = (bytes.length + 3) / 4 := by
  induction bytes using words.induct with
  | case1 => rfl
  | case2 b₀ b₁ b₂ b₃ rest ih =>
      simp only [words, List.length_cons, ih]
      omega
  | case3 rest hNil hShort =>
      rcases rest with _ | ⟨b₀, _ | ⟨b₁, _ | ⟨b₂, _ | ⟨b₃, rest⟩⟩⟩⟩
      · exact absurd rfl hNil
      · simp [words]
      · simp [words]
      · simp [words]
      · exact absurd rfl (hShort b₀ b₁ b₂ b₃ rest)

theorem length_flatten_words (bytes : List UInt8) :
    ((words bytes).map toWire).flatten.length = (bytes.length + 3) / 4 * 4 := by
  have hEach : ((words bytes).map toWire).map List.length = List.replicate (words bytes).length 4 := by
    rw [List.map_map, ← List.map_const']
    exact List.map_congr_left fun word _ => length_toWire word
  rw [List.length_flatten, hEach, List.sum_replicate_nat, length_words]

namespace Store

/-- The headers that a look-up goes through lie in the region. -/
theorem bounds_of_mem {store : Store} {flash : Flash} {offset : Nat} {records : List Record}
    (h : store.recordsFrom flash offset = .ok records) :
    ∀ record ∈ records, offset ≤ record.offset ∧ record.offset + recordHeader ≤ store.stop := by
  induction hLeft : store.stop - offset using Nat.strongRecOn generalizing offset records with
  | ind left ih =>
      by_cases hFits : offset + recordHeader ≤ store.stop
      · cases hRead : recordAt flash offset with
        | error error =>
            rw [recordsFrom_of_error hFits hRead] at h
            cases h
        | ok first =>
            have hFirst := offset_recordAt hRead
            rw [recordsFrom_of_record hFits hRead] at h
            split at h
            · cases h
              simp [hFirst, hFits]
            · split at h
              · cases h
                simp [hFirst, hFits]
              · next following hNext =>
                  have hOffset := Record.offset_lt_next hNext
                  rw [hFirst, recordHeader] at hOffset
                  cases hRest : store.recordsFrom flash following with
                  | error error =>
                      rw [hRest] at h
                      cases h
                  | ok rest =>
                      rw [hRest] at h
                      cases h
                      have hLater := ih _ (by rw [recordHeader] at hFits; omega) hRest rfl
                      refine List.forall_mem_cons.mpr ⟨?_, fun record hMem => ?_⟩
                      · rw [hFirst]
                        exact ⟨Nat.le_refl _, hFits⟩
                      · have := hLater record hMem
                        omega
      · rw [recordsFrom, if_neg hFits] at h
        cases h
        simp

/-- What is found lies within the store. -/
theorem bounds_of_find {store : Store} {flash : Flash} {kind : UInt32} {record : Record}
    (h : store.find flash kind = .ok (some record)) :
    store.start ≤ record.offset ∧ record.offset + recordHeader ≤ store.stop := by
  rw [find] at h
  cases hRecords : store.records flash with
  | error error =>
      rw [hRecords] at h
      cases h
  | ok records =>
      rw [hRecords] at h
      have hLast := Except.ok.inj h
      exact bounds_of_mem hRecords record (List.mem_filter.mp (List.mem_of_getLast? hLast)).1

/-- Appending a record touches the region alone. -/
theorem write_confined (store : Store) (flash : Flash) (kind : UInt32) (data : List UInt8) :
    Flash.Confined store.start store.stop flash (store.write flash kind data).2 := by
  unfold write
  split
  · exact .refl ..
  · split
    · exact .refl ..
    · exact .refl ..
    · next slot hFind =>
        have hStart := (bounds_of_find hFind).1
        split
        · exact .refl ..
        · next span hSpan =>
            split
            · exact .refl ..
            · next hRoom =>
                dsimp only
                have hAll := flash.programAll_confined slot.offset
                  ((toWire kind ++ toWire (UInt32.ofNat data.length)) :: (words data).map toWire)
                have hEnd : slot.offset + ((toWire kind ++ toWire (UInt32.ofNat data.length)) ::
                    (words data).map toWire).flatten.length ≤ store.stop := by
                  rw [span?] at hSpan
                  split at hSpan <;> cases hSpan
                  rw [List.flatten_cons, List.length_append, length_flatten_words,
                    List.length_append, length_toWire, length_toWire, size_word]
                  simp only [recordHeader] at hRoom
                  omega
                split
                all_goals
                  next hProgram =>
                    rw [hProgram] at hAll
                    exact hAll.mono hStart hEnd

/-- To erase the store changes nothing outside it. -/
theorem erase_confined (store : Store) (flash : Flash) :
    Flash.Confined store.start store.stop flash (store.erase flash).2 := by
  have hErase := flash.erase_confined store.start store.stop
  unfold erase
  split
  all_goals
    next hErased =>
      rw [hErased] at hErase
      exact hErase

/-- Erasing is carried out on whole pages, and then leaves a blank region. -/
theorem erase_of_sound {store : Store} {flash : Flash} (sound : flash.Sound)
    (inside : store.stop ≤ flash.bytes.size) :
    if store.start % Layout.pageSize = 0 ∧ store.stop % Layout.pageSize = 0 then
      (store.erase flash).1 = .ok () ∧ (store.erase flash).2.Blank store.start store.stop
    else ∃ error, store.erase flash = (.error error, flash) := by
  have hOrder : store.start ≤ store.stop := Nat.le_add_right ..
  split
  case isTrue hPages =>
    rw [erase, Flash.erase_of_no_faults sound.faults hPages.1 hPages.2 hOrder inside]
    refine ⟨rfl, fun i hLow hHigh => ?_⟩
    have hByte : flash.bytes[i]? = some flash.bytes[i] := Array.getElem?_eq_getElem (by omega)
    simp only [Flash.carryOut, Flash.getElem?_erased, sound.stuckPages, List.contains_nil, and_true]
    rw [if_pos (by omega), hByte]
    rfl
  case isFalse hPages =>
    have hRefused : flash.eraseRefusal? store.start store.stop = some .notAligned := by
      rw [Flash.eraseRefusal?, if_pos (by omega)]
    exact ⟨_, by rw [erase, Flash.erase_eq, hRefused]⟩

end Store

/-- The commands all nodes have in common change the store and nothing else in flash. -/
theorem Shared.execute_confined (request : Request) (session : Session) (identity : Identity)
    (flash : Flash) :
    Flash.Confined Store.standard.start Store.standard.stop flash
      (Shared.execute request session identity flash).2 := by
  unfold execute
  split
  · exact .refl ..
  · exact .refl ..
  · next address _ _ =>
      have hWrite := Store.standard.write_confined flash Store.addressKind (toWire address.toUInt32)
      rw [setAddress, Store.setWord]
      split
      all_goals
        next hSet =>
          rw [hSet] at hWrite
          exact hWrite
  · exact Store.standard.erase_confined flash
  · exact .refl ..

end Multidrop
