import Multidrop.Host.Flashing
import Multidrop.Proofs.Bootloader.Execution
import Multidrop.Proofs.Network.Request

/-!
The requests of an update. The page that a host sends is the page that a bootloader flashes.
-/

namespace Multidrop

/-- The bytes of a page are read as that page. -/
theorem Page.ofBytes_fields (index : UInt16) (data : Vector UInt8 Layout.pageSize)
    (sum : UInt32) :
    Page.ofBytes (toWire index ++ data.toList ++ toWire sum).toArray = ⟨index, data, sum⟩ := by
  have hIndex : (toWire index).length = 2 := length_toWire index
  have hData : data.toList.length = Layout.pageSize := Vector.length_toList
  have hSum : (toWire sum).length = 4 := length_toWire sum
  have hFront : (toWire index ++ data.toList).length = 2 + Layout.pageSize := by
    rw [List.length_append, hIndex, hData]
  have hFirst : (ofWire ((toWire index ++ data.toList ++ toWire sum).toArray.extract 0 2).toList :
      UInt16) = index := by
    rw [List.append_assoc, List.extract_toArray, List.extract_eq_take_drop, List.drop_zero,
      Nat.sub_zero, List.take_left' hIndex, ofWire_toWire]
  have hLast : (ofWire ((toWire index ++ data.toList ++ toWire sum).toArray.extract
      (2 + Layout.pageSize) pagePayload).toList : UInt32) = sum := by
    rw [List.extract_toArray, List.extract_eq_take_drop, List.drop_left' hFront, pagePayload,
      Nat.add_sub_cancel_left, ← hSum, List.take_length, ofWire_toWire]
  have hMiddle : (Vector.ofFn fun i : Fin Layout.pageSize =>
      (toWire index ++ data.toList ++ toWire sum).toArray.getD (2 + i) 0) = data := by
    ext i hIn
    have hPlace : 2 + i < (toWire index ++ data.toList).length := by omega
    rw [Vector.getElem_ofFn, Array.getD_eq_getD_getElem?, List.getElem?_toArray,
      List.getElem?_append_left hPlace, List.getElem?_append_right (by omega), hIndex,
      Nat.add_sub_cancel_left, List.getElem?_eq_getElem (by omega), Option.getD_some,
      Vector.getElem_toList]
  unfold ofBytes
  rw [hFirst, hLast, hMiddle]

namespace Page

theorem length_pageRequest (page : Page) :
    (Host.pageRequest page.index page.data.toList).length = pagePayload := by
  simp only [Host.pageRequest, List.length_append, length_toWire, Vector.length_toList]
  rfl

/-- A page with its answer is short enough for a header to declare. -/
theorem exchangeLength_le (page : Page) :
    exchangeLength (Host.pageRequest page.index page.data.toList).length 1 ≤ 65535 := by
  rw [length_pageRequest]
  decide

end Page

namespace Incoming

/-- A page, as a host sends it and waits for its status. -/
def page (target : UInt8) (page : Page) : Incoming :=
  ofRequest target .flashFirmware .page (Host.pageRequest page.index page.data.toList) 1
    (.page page)

/-- A page under its own checksum makes a packet that is a request. -/
theorem wellFormed_page {target : UInt8} {page : Page}
    (hSum : checksum page.data.toList = page.checksum) :
    (Incoming.page target page).WellFormed := by
  refine wellFormed_ofRequest (by simp) page.length_pageRequest page.exchangeLength_le ?_
  rw [Host.pageRequest, hSum]
  exact congrArg (some ∘ Payload.page) (Page.ofBytes_fields page.index page.data page.checksum)

end Incoming

end Multidrop
