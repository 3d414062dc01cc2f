import Multidrop.Checksum
import Multidrop.Proofs.Packed

/-!
Checksums of bytes that come in pieces.
-/

namespace Multidrop.Checksum

/-- Bytes can be cut anywhere between two words. -/
theorem update_append (checksum : Checksum) (first second : List UInt8)
    (h : first.length % 4 = 0) :
    checksum.update (first ++ second) = (checksum.update first).update second := by
  simp only [update, words_append first second h, List.foldl_append]

/-- A fresh checksum after some bytes is the checksum of those bytes. -/
theorem update_start (bytes : List UInt8) : start.update bytes = ⟨checksum bytes⟩ :=
  rfl

end Multidrop.Checksum
