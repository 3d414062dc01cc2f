import Mathlib.Data.List.GetD
import Multidrop.Proofs.Checksum.Register

/-!
The checksum by its definition, however the bytes come. Bit after bit goes into the register, in an
order that can be told from the bytes alone; pieces leave the register where the whole leaves it, as
long as they are cut between two words.
-/

namespace Multidrop

/-- Each digit of a number has eight bits of it. Digits that are missing have none. -/
theorem testBit_ofDigits (bytes : List UInt8) (j : Nat) :
    (ofDigits bytes).testBit j = (bytes.getD (j / 8) 0).toNat.testBit (j % 8) := by
  induction bytes generalizing j with
  | nil => simp [ofDigits]
  | cons byte rest ih =>
      have hPlace : byte.toNat + 256 * ofDigits rest = 2 ^ 8 * ofDigits rest + byte.toNat :=
        Nat.add_comm ..
      rw [ofDigits, hPlace, Nat.testBit_two_pow_mul_add _ byte.toNat_lt]
      split
      case isTrue hLow =>
          have hFirst : j / 8 = 0 := by omega
          rw [hFirst, Nat.mod_eq_of_lt hLow]
          rfl
      case isFalse hHigh =>
          have hNext : j / 8 = (j - 8) / 8 + 1 := by omega
          have hSame : (j - 8) % 8 = j % 8 := by omega
          rw [ih, hNext, hSame]
          rfl

namespace Checksum

/-- The bit with this number, in the order in which a checksum consumes the bits of some bytes. Four
bytes are a word, and a word comes from its last byte on, a byte from its most significant bit on.
Bytes that the last word lacks count as zeros. -/
def bitAt (bytes : List UInt8) (i : Nat) : Bool :=
  (bytes.getD (i / 32 * 4 + (3 - i % 32 / 8)) 0).toBitVec.getMsbD (i % 8)

/-- The register after it took the bits of some bytes, one after the other. -/
def bitwise (seed : UInt32) (bytes : List UInt8) : UInt32 :=
  (List.range (32 * ((bytes.length + 3) / 4))).foldl
    (fun register i => feed register (bitAt bytes i)) seed

/-- A word of up to four bytes has the bits of these bytes. -/
theorem bits_ofWire (bytes : List UInt8) :
    bits (ofWire bytes) = (List.range 32).map (bitAt bytes) := by
  apply List.map_congr_left
  intro i hMem
  have hi : i < 32 := List.mem_range.mp hMem
  have hByte : (31 - i) / 8 = i / 32 * 4 + (3 - i % 32 / 8) := by omega
  have hBit : (31 - i) % 8 = 7 - i % 8 := by omega
  have hInside : i % 8 < 8 := Nat.mod_lt _ (by decide)
  have hWord : (ofWire bytes : UInt32).toBitVec.getMsbD i = (ofDigits bytes).testBit (31 - i) := by
    change (BitVec.ofNat 32 (ofDigits bytes)).getMsbD i = _
    have hPlace : 31 - i < 32 := by omega
    rw [BitVec.getMsbD, BitVec.getLsbD_ofNat, decide_eq_true hi, Bool.true_and,
      decide_eq_true hPlace, Bool.true_and]
  rw [hWord, testBit_ofDigits, hByte, hBit, bitAt]
  simp [BitVec.getMsbD, hInside, BitVec.getLsbD]

/-- The bits of a word are told by the four bytes of the word, whatever follows them. -/
theorem bitAt_append {first : List UInt8} (hWord : first.length = 4) (rest : List UInt8) {i : Nat}
    (hi : i < 32) : bitAt (first ++ rest) i = bitAt first i := by
  have hInside : i / 32 * 4 + (3 - i % 32 / 8) < first.length := by omega
  rw [bitAt, List.getD_append _ _ _ _ hInside, bitAt]

/-- After a first word the bits go on with those of the rest. -/
theorem bitAt_append_right {first : List UInt8} (hWord : first.length = 4) (rest : List UInt8)
    (i : Nat) : bitAt (first ++ rest) (32 + i) = bitAt rest i := by
  have hPlace : (32 + i) / 32 * 4 + (3 - (32 + i) % 32 / 8) =
      first.length + (i / 32 * 4 + (3 - i % 32 / 8)) := by omega
  have hBit : (32 + i) % 8 = i % 8 := by omega
  rw [bitAt, hPlace, hBit, List.getD_append_right _ _ _ _ (Nat.le_add_right ..),
    Nat.add_sub_cancel_left, bitAt]

/-- The bits that a checksum consumes are those of the bytes in their order. -/
theorem stream_eq (bytes : List UInt8) :
    stream bytes = (List.range (32 * ((bytes.length + 3) / 4))).map (bitAt bytes) := by
  induction bytes using words.induct with
  | case1 => rfl
  | case2 b₀ b₁ b₂ b₃ rest ih =>
      have hCount : 32 * (((b₀ :: b₁ :: b₂ :: b₃ :: rest).length + 3) / 4) =
          32 + 32 * ((rest.length + 3) / 4) := by
        simp only [List.length_cons]
        omega
      have hFirst : bits (ofWire [b₀, b₁, b₂, b₃]) =
          (List.range 32).map (bitAt ([b₀, b₁, b₂, b₃] ++ rest)) := by
        rw [bits_ofWire]
        exact List.map_congr_left fun i hMem =>
          (bitAt_append rfl rest (List.mem_range.mp hMem)).symm
      have hRest : bitAt ([b₀, b₁, b₂, b₃] ++ rest) ∘ (32 + ·) = bitAt rest :=
        funext (bitAt_append_right rfl rest)
      rw [hCount, List.range_add, List.map_append, List.map_map]
      change bits (ofWire [b₀, b₁, b₂, b₃]) ++ stream rest = _
      rw [hFirst, ih, ← hRest]
      rfl
  | case3 rest hNil hShort =>
      rcases rest with _ | ⟨b₀, _ | ⟨b₁, _ | ⟨b₂, _ | ⟨b₃, rest⟩⟩⟩⟩
      · exact absurd rfl hNil
      · simpa [stream, words] using bits_ofWire [b₀]
      · simpa [stream, words] using bits_ofWire [b₀, b₁]
      · simpa [stream, words] using bits_ofWire [b₀, b₁, b₂]
      · exact absurd rfl (hShort b₀ b₁ b₂ b₃ rest)

/-- The table gives what the register gives bit by bit. -/
theorem checksumFrom_eq_bitwise (seed : UInt32) (bytes : List UInt8) :
    checksumFrom seed bytes = bitwise seed bytes := by
  rw [checksumFrom_eq, stream_eq, List.foldl_map, bitwise]

/-- What the hardware unit makes of a word after a reset. -/
example : bitwise seed [0x78, 0x56, 0x34, 0x12] = 0xDF8A8A2B := by decide +kernel

/-! ## Pieces -/

/-- What a checksum is given at a time. -/
inductive Piece where
  | bytes (content : List UInt8)
  | word (value : UInt32)

/-- The bytes that a piece stands for. -/
def Piece.content : Piece → List UInt8
  | .bytes content => content
  | .word value => toWire value

/-- Consumes a piece in the way meant for it. -/
def absorb (checksum : Checksum) : Piece → Checksum
  | .bytes content => checksum.update content
  | .word value => checksum.word value

theorem words_toWire (word : UInt32) : words (toWire word) = [word] := by
  change [ofWire (toWire word)] = [word]
  rw [ofWire_toWire]

/-- A piece is absorbed as the bytes it stands for. -/
theorem absorb_eq (checksum : Checksum) (piece : Piece) :
    checksum.absorb piece = checksum.update piece.content := by
  cases piece with
  | bytes content => rfl
  | word value =>
      change checksum.word value = (words (toWire value)).foldl Checksum.word checksum
      rw [words_toWire]
      rfl

/-- Pieces that are whole words, except for the last one, come to what the whole comes to. -/
theorem foldl_absorb (checksum : Checksum) {pieces : List Piece}
    (hWhole : ∀ piece ∈ pieces.dropLast, piece.content.length % 4 = 0) :
    pieces.foldl absorb checksum = checksum.update (pieces.flatMap Piece.content) := by
  induction pieces generalizing checksum with
  | nil => rfl
  | cons piece rest ih =>
      rw [List.foldl_cons, List.flatMap_cons, absorb_eq]
      cases rest with
      | nil => rw [List.flatMap_nil, List.append_nil, List.foldl_nil]
      | cons next rest =>
          rw [List.dropLast_cons_cons] at hWhole
          obtain ⟨hFirst, hRest⟩ := List.forall_mem_cons.mp hWhole
          rw [ih _ hRest, update_append _ _ _ hFirst]

/-- A checksum is what a register makes of the bits of the bytes, and the same for every way to cut
the bytes into pieces. -/
theorem bitwise_in_pieces (seed : UInt32) :
    (∀ bytes, checksumFrom seed bytes = bitwise seed bytes) ∧
    ∀ pieces : List Piece, (∀ piece ∈ pieces.dropLast, piece.content.length % 4 = 0) →
      (pieces.foldl absorb ⟨seed⟩).value = checksumFrom seed (pieces.flatMap Piece.content) := by
  refine ⟨checksumFrom_eq_bitwise seed, fun pieces hWhole => ?_⟩
  rw [foldl_absorb _ hWhole, checksumFrom]

/-- Four bytes, a word and a last word that lacks a byte. -/
theorem bitwise_in_pieces_padded :
    let pieces := [Piece.bytes [1, 2, 3, 4], .word 0x08070605, .bytes [9, 10, 11]]
    (∀ piece ∈ pieces.dropLast, piece.content.length % 4 = 0) ∧
      (pieces.foldl absorb ⟨seed⟩).value = bitwise seed [1, 2, 3, 4, 5, 6, 7, 8, 9, 10, 11] := by
  intro pieces
  have hWhole : ∀ piece ∈ pieces.dropLast, piece.content.length % 4 = 0 := by decide
  have hContent : pieces.flatMap Piece.content = [1, 2, 3, 4, 5, 6, 7, 8, 9, 10, 11] := by decide
  refine ⟨hWhole, ?_⟩
  rw [(bitwise_in_pieces seed).2 pieces hWhole, (bitwise_in_pieces seed).1, hContent]

end Checksum

end Multidrop
