import Mathlib.Logic.Function.Iterate
import Multidrop.Proofs.Checksum

/-!
The checksum as a shift register that takes one bit after the other. The register is linear over
exclusive or, in what it holds and in what it is fed, and loses nothing: two registers that differ
still differ after they took the same bit. The table consumes four bits of this register at a time.
-/

namespace Multidrop.Checksum

/-- The generator of the code, without its leading term. -/
def generator : UInt32 := 0x04C11DB7

/-- Takes a bit. If it is not the one that leaves the register at the top, the generator is
subtracted. -/
def feed (register : UInt32) (bit : Bool) : UInt32 :=
  if register.toBitVec.msb = bit then register <<< 1 else (register <<< 1) ^^^ generator

/-- Takes a zero. -/
def advance (register : UInt32) : UInt32 :=
  feed register false

/-- The bits of a word, the most significant one first. -/
def bits (word : UInt32) : List Bool :=
  (List.range 32).map word.toBitVec.getMsbD

/-- The bits of some bytes in the order in which a checksum consumes them. -/
def stream (bytes : List UInt8) : List Bool :=
  (words bytes).flatMap bits

@[simp] theorem length_bits (word : UInt32) : (bits word).length = 32 := by
  simp [bits]

/-! ## Linearity -/

/-- To feed a bit is to shift the register and to add the generator if bits differ at its top. -/
theorem feed_eq (register : UInt32) (bit : Bool) :
    feed register bit =
      (register <<< 1) ^^^ (if (register.toBitVec.msb ^^ bit) = true then generator else 0) := by
  rw [feed]
  cases register.toBitVec.msb <;> cases bit <;> simp

/-- What is subtracted for two bits is subtracted for their sum. -/
theorem select_xor (first second : Bool) (word : UInt32) :
    (if (first ^^ second) = true then word else 0) =
      (if first = true then word else 0) ^^^ (if second = true then word else 0) := by
  cases first <;> cases second <;> simp

/-- Feeding is linear in register and bit together. -/
theorem feed_xor (first second : UInt32) (bit other : Bool) :
    feed (first ^^^ second) (bit ^^ other) = feed first bit ^^^ feed second other := by
  have hShift : (first ^^^ second) <<< 1 = (first <<< 1) ^^^ (second <<< 1) :=
    UInt32.toBitVec_inj.mp (by simp [BitVec.shiftLeft_xor_distrib])
  have hTop : ((first ^^^ second).toBitVec.msb ^^ (bit ^^ other)) =
      ((first.toBitVec.msb ^^ bit) ^^ (second.toBitVec.msb ^^ other)) := by
    rw [UInt32.toBitVec_xor, BitVec.msb_xor]
    simp only [Bool.xor_assoc, Bool.xor_left_comm]
  rw [feed_eq, feed_eq, feed_eq, hShift, hTop, select_xor]
  ac_rfl

theorem advance_xor (first second : UInt32) :
    advance (first ^^^ second) = advance first ^^^ advance second :=
  feed_xor first second false false

/-- So are several steps of an idle register. -/
theorem iterate_advance_xor (count : Nat) (first second : UInt32) :
    advance^[count] (first ^^^ second) = advance^[count] first ^^^ advance^[count] second := by
  induction count generalizing first second with
  | zero => rfl
  | succ count ih => rw [Function.iterate_succ_apply, advance_xor, ih]; rfl

/-! ## Nothing is lost -/

/-- Only the zero register comes to zero. -/
theorem eq_zero_of_advance {register : UInt32} (h : advance register = 0) : register = 0 := by
  have hBits := congrArg UInt32.toBitVec h
  rw [advance, feed] at hBits
  cases hTop : register.toBitVec.msb with
  | true =>
      -- The last term of the generator would have to be zero.
      have hLast := congrArg (·.getLsbD 0) hBits
      simp [hTop, generator] at hLast
  | false =>
      rw [hTop, if_pos rfl] at hBits
      apply UInt32.toBitVec_inj.mp
      apply BitVec.eq_of_getMsbD_eq
      intro i hi
      rcases i with _ | i
      · exact hTop
      · have hBit := congrArg (·.getMsbD i) hBits
        simpa [BitVec.getMsbD_shiftLeft, hi, Nat.add_comm] using hBit

/-- No two registers come to the same by the same bit. -/
theorem feed_injective (bit : Bool) : Function.Injective (feed · bit) := by
  intro first second h
  have hSum : advance (first ^^^ second) = 0 := by
    have hFed := feed_xor first second bit bit
    rw [Bool.xor_self] at hFed
    rw [advance, hFed]
    exact UInt32.xor_eq_zero_iff.mpr h
  exact UInt32.xor_eq_zero_iff.mp (eq_zero_of_advance hSum)

/-- Nor do they by the same bits. -/
theorem foldl_feed_injective (bits : List Bool) : Function.Injective (bits.foldl feed ·) := by
  induction bits with
  | nil => exact Function.injective_id
  | cons bit rest ih => exact ih.comp (feed_injective bit)

/-! ## Many bits at a time -/

/-- A bit at the top of a word. -/
def top (bit : Bool) : UInt32 :=
  if bit = true then 0x80000000 else 0

/-- Bits side by side from the top of a word on. -/
def packed : List Bool → UInt32
  | [] => 0
  | bit :: rest => top bit ^^^ (packed rest >>> 1)

theorem getMsbD_top :
    ∀ (bit : Bool) (i : Nat), i < 32 → (top bit).toBitVec.getMsbD i = (decide (i = 0) && bit) := by
  decide

/-- The first bits of a packed register are the bits it was packed from. -/
theorem getMsbD_packed (bits : List Bool) {i : Nat} (hi : i < 32) :
    (packed bits).toBitVec.getMsbD i = bits.getD i false := by
  induction bits generalizing i with
  | nil => simp [packed]
  | cons bit rest ih =>
      rw [packed, UInt32.toBitVec_xor, BitVec.getMsbD_xor, getMsbD_top bit i hi]
      rcases i with _ | i
      · simp [BitVec.getMsbD_ushiftRight]
      · simp [BitVec.getMsbD_ushiftRight, hi, ih (by omega : i < 32)]

/-- A word is packed from its own bits. -/
theorem packed_bits (word : UInt32) : packed (bits word) = word := by
  apply UInt32.toBitVec_inj.mp
  apply BitVec.eq_of_getMsbD_eq
  intro i hi
  rw [getMsbD_packed _ hi]
  simp [bits, hi]

theorem eq_of_packed {first second : List Bool} (hLength : first.length = second.length)
    (hShort : first.length ≤ 32) (h : packed first = packed second) : first = second := by
  apply List.ext_getElem hLength
  intro i hFirst hSecond
  have hBit : first.getD i false = second.getD i false := by
    rw [← getMsbD_packed first (by omega), h, getMsbD_packed second (by omega)]
  rwa [List.getD_eq_getElem?_getD, List.getD_eq_getElem?_getD,
    List.getElem?_eq_getElem hFirst, List.getElem?_eq_getElem hSecond] at hBit

/-- A bit at the top is fed first, the ones below it later. -/
theorem feed_packed (bit : Bool) {rest : List Bool} (hShort : rest.length < 32) :
    feed (packed (bit :: rest)) bit = packed rest := by
  have hTop : (packed (bit :: rest)).toBitVec.msb = bit :=
    getMsbD_packed (bit :: rest) (by decide : 0 < 32)
  rw [feed, if_pos hTop]
  apply UInt32.toBitVec_inj.mp
  apply BitVec.eq_of_getMsbD_eq
  intro i hi
  have hNext : ((packed (bit :: rest)) <<< 1).toBitVec.getMsbD i =
      (packed (bit :: rest)).toBitVec.getMsbD (i + 1) := by
    simp
  rw [hNext, getMsbD_packed rest hi]
  by_cases hInside : i + 1 < 32
  · rw [getMsbD_packed _ hInside, List.getD_cons_succ]
  · rw [BitVec.getMsbD_of_ge _ _ (by omega), List.getD_eq_getElem?_getD,
      List.getElem?_eq_none (by omega), Option.getD_none]

/-- Taking up to 32 bits is taking so many zeros once the bits were put at the top. -/
theorem foldl_feed {bits : List Bool} (hShort : bits.length ≤ 32) (register : UInt32) :
    bits.foldl feed register = advance^[bits.length] (register ^^^ packed bits) := by
  induction bits generalizing register with
  | nil => simp [packed]
  | cons bit rest ih =>
      rw [List.length_cons] at hShort
      have hFirst : advance (register ^^^ packed (bit :: rest)) =
          feed register bit ^^^ packed rest := by
        have hFed := feed_xor register (packed (bit :: rest)) bit bit
        rw [Bool.xor_self] at hFed
        rw [advance, hFed, feed_packed bit (by omega)]
      rw [List.foldl_cons, ih (by omega), List.length_cons, Function.iterate_succ_apply, hFirst]

/-- As long as they fit the register, no two sequences of bits come to the same from one state. -/
theorem eq_of_foldl_feed {first second : List Bool} (hLength : first.length = second.length)
    (hShort : first.length ≤ 32) {register : UInt32}
    (h : first.foldl feed register = second.foldl feed register) : first = second := by
  rw [foldl_feed hShort, foldl_feed (hLength ▸ hShort), ← hLength] at h
  have hSame := (feed_injective false).iterate first.length h
  exact eq_of_packed hLength hShort (UInt32.xor_right_inj register |>.mp hSame)

/-! ## The table -/

/-- As long as zeros leave the register, it is shifted and nothing is subtracted. -/
theorem iterate_advance_of_clear {count : Nat} {register : UInt32}
    (h : ∀ i, i < count → register.toBitVec.getMsbD i = false) :
    (advance^[count] register).toBitVec = register.toBitVec <<< count := by
  induction count generalizing register with
  | zero => simp
  | succ count ih =>
      have hTop : register.toBitVec.msb = false := h 0 (by omega)
      have hFirst : advance register = register <<< 1 := by rw [advance, feed, if_pos hTop]
      have hShift : (register <<< 1).toBitVec = register.toBitVec <<< 1 := by simp
      have hRest : ∀ i, i < count → (register <<< 1).toBitVec.getMsbD i = false := by
        intro i hi
        rw [hShift, BitVec.getMsbD_shiftLeft]
        exact h (i + 1) (by omega)
      rw [Function.iterate_succ_apply, hFirst, ih hRest, hShift, ← BitVec.shiftLeft_add,
        Nat.add_comm]

/-- The table holds what becomes of the four bits at the top. -/
theorem table_eq : ∀ number : Nat, number < 16 →
    table.getD number 0 = advance^[4] (UInt32.ofNat number <<< 28) := by
  decide

/-- One step by the table is four steps by the bit. -/
theorem shift_eq (register : UInt32) : shift register = advance^[4] register := by
  obtain ⟨high, hHigh⟩ : ∃ high, high = (register >>> 28) <<< 28 := ⟨_, rfl⟩
  obtain ⟨low, hLow⟩ : ∃ low, low = (register <<< 4) >>> 4 := ⟨_, rfl⟩
  have hSplit : register = low ^^^ high := by
    apply UInt32.toBitVec_inj.mp
    apply BitVec.eq_of_getMsbD_eq
    intro i hi
    rw [hLow, hHigh]
    by_cases hTop : i < 4
    · have hInside : i + 28 < 32 := by omega
      simp [BitVec.getMsbD_ushiftRight, hi, hTop, hInside]
    · have hOutside : ¬i + 28 < 32 := by omega
      have hPlace : i - 4 + 4 = i := by omega
      simp [BitVec.getMsbD_ushiftRight, hi, hTop, hOutside, hPlace]
  have hTable : advance^[4] high = table.getD (register >>> 28).toNat 0 := by
    have hSmall : (register >>> 28).toNat < 16 := by
      simp
      have := register.toNat_lt
      omega
    rw [table_eq _ hSmall, UInt32.ofNat_toNat, hHigh]
  have hRest : advance^[4] low = register <<< 4 := by
    apply UInt32.toBitVec_inj.mp
    rw [iterate_advance_of_clear]
    · rw [hLow]
      apply BitVec.eq_of_getMsbD_eq
      intro i hi
      by_cases hInside : i + 4 < 32
      · simp [BitVec.getMsbD_ushiftRight, hInside]
      · simp [BitVec.getMsbD_of_ge, Nat.le_of_not_lt hInside]
    · intro i hi
      rw [hLow]
      simp [BitVec.getMsbD_ushiftRight, Nat.lt_trans hi (by decide : 4 < 32), hi]
  calc shift register = (register <<< 4) ^^^ table.getD (register >>> 28).toNat 0 := rfl
    _ = advance^[4] low ^^^ advance^[4] high := by rw [hRest, hTable]
    _ = advance^[4] register := by rw [← iterate_advance_xor, ← hSplit]

/-- To add a word is to feed its bits, the highest first. -/
theorem word_eq (checksum : Checksum) (word : UInt32) :
    checksum.word word = ⟨(bits word).foldl feed checksum.value⟩ := by
  rw [foldl_feed (Nat.le_of_eq (length_bits word)), length_bits, packed_bits, Checksum.word]
  congr 1
  have hRepeat (count : Nat) (register : UInt32) :
      Nat.repeat shift count register = advance^[4 * count] register := by
    induction count with
    | zero => rfl
    | succ count ih =>
        rw [Nat.repeat, ih, shift_eq, ← Function.iterate_add_apply, Nat.add_comm]
        rfl
  exact hRepeat 8 _

/-- To add bytes is to feed their bits. -/
theorem update_eq (checksum : Checksum) (bytes : List UInt8) :
    checksum.update bytes = ⟨(stream bytes).foldl feed checksum.value⟩ := by
  rw [update, stream]
  induction words bytes generalizing checksum with
  | nil => rfl
  | cons first rest ih =>
      rw [List.foldl_cons, ih, word_eq, List.flatMap_cons, List.foldl_append]

theorem checksumFrom_eq (seed : UInt32) (bytes : List UInt8) :
    checksumFrom seed bytes = (stream bytes).foldl feed seed := by
  rw [checksumFrom, update_eq]

end Multidrop.Checksum
