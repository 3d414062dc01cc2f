import Multidrop.Checksum
import Multidrop.Proofs.Packed

/-!
Computations that know where they may go wrong. A sum, a product or a difference that a word cannot
hold, a division by zero, an index or a slice that reaches outside, a copy between parts that are
not of one length and a loop that goes on for too long all end in a trap. What is written in these
operations and shown to give a result does none of this.
-/

namespace Multidrop

/-- Why an operation has no result. -/
inductive Trap where
  /-- A word cannot hold a sum, a product or a difference. -/
  | overflow
  /-- A number is divided by zero. -/
  | division
  /-- An index or a slice reaches outside. -/
  | outside
  /-- What is copied is not as long as the part it is copied to. -/
  | mismatch
  /-- A loop was not over after as many rounds as it may take. -/
  | endless
  deriving DecidableEq

/-- A computation that a trap can end. -/
abbrev Strict := Except Trap

namespace Strict

variable {α β : Type}

/-- The sum of two words. -/
def add (first second : Nat) : Strict Nat :=
  if first + second < UInt32.size then .ok (first + second) else .error .overflow

/-- The difference of two words. -/
def sub (first second : Nat) : Strict Nat :=
  if second ≤ first then .ok (first - second) else .error .overflow

/-- The product of two words. -/
def mul (first second : Nat) : Strict Nat :=
  if first * second < UInt32.size then .ok (first * second) else .error .overflow

/-- How often a word holds another one. -/
def div (first second : Nat) : Strict Nat :=
  if second = 0 then .error .division else .ok (first / second)

/-- What is left of a word when it is divided by another one. -/
def mod (first second : Nat) : Strict Nat :=
  if second = 0 then .error .division else .ok (first % second)

/-- The item at an index. -/
def get (items : List α) (i : Nat) : Strict α :=
  match items[i]? with
  | some item => .ok item
  | none => .error .outside

/-- The items with another one at an index. -/
def set (items : List α) (i : Nat) (item : α) : Strict (List α) :=
  if i < items.length then .ok (items.set i item) else .error .outside

/-- The items from `start` up to `stop`. -/
def slice (items : List α) (start stop : Nat) : Strict (List α) :=
  if start ≤ stop ∧ stop ≤ items.length then .ok ((items.take stop).drop start)
  else .error .outside

/-- The items with those from `start` up to `stop` replaced by others. -/
def copy (items : List α) (start stop : Nat) (source : List α) : Strict (List α) := do
  let part ← slice items start stop
  if part.length = source.length then .ok (items.take start ++ source ++ items.drop stop)
  else .error .mismatch

theorem ok_bind (result : α) (next : α → Strict β) :
    (Except.ok result >>= next : Strict β) = next result := rfl

theorem add_eq {first second : Nat} (h : first + second < UInt32.size) :
    add first second = .ok (first + second) := if_pos h

theorem sub_eq {first second : Nat} (h : second ≤ first) :
    sub first second = .ok (first - second) := if_pos h

theorem mul_eq {first second : Nat} (h : first * second < UInt32.size) :
    mul first second = .ok (first * second) := if_pos h

theorem div_eq {second : Nat} (h : 0 < second) (first : Nat) :
    div first second = .ok (first / second) := if_neg (Nat.ne_of_gt h)

theorem mod_eq {second : Nat} (h : 0 < second) (first : Nat) :
    mod first second = .ok (first % second) := if_neg (Nat.ne_of_gt h)

theorem get_eq {items : List α} {i : Nat} {item : α} (h : items[i]? = some item) :
    get items i = .ok item := by
  rw [get, h]

theorem set_eq {items : List α} {i : Nat} (h : i < items.length) (item : α) :
    set items i item = .ok (items.set i item) := if_pos h

theorem slice_eq {items : List α} {start stop : Nat} (hStart : start ≤ stop)
    (hStop : stop ≤ items.length) : slice items start stop = .ok ((items.take stop).drop start) :=
  if_pos ⟨hStart, hStop⟩

theorem copy_eq {items source : List α} {start stop : Nat} (hStart : start ≤ stop)
    (hStop : stop ≤ items.length) (hLength : stop - start = source.length) :
    copy items start stop source = .ok (items.take start ++ source ++ items.drop stop) := by
  rw [copy, slice_eq hStart hStop, ok_bind, List.length_drop, List.length_take,
    Nat.min_eq_left hStop, if_pos hLength]

/-- A loop whose rounds all give a result gives one. -/
theorem foldlM_eq {items : List α} {round : β → α → Strict β} {next : β → α → β}
    (h : ∀ state, ∀ item ∈ items, round state item = .ok (next state item)) (state : β) :
    items.foldlM round state = .ok (items.foldl next state) := by
  induction items generalizing state with
  | nil => rfl
  | cons item rest ih =>
      obtain ⟨hItem, hRest⟩ := List.forall_mem_cons.mp fun other hMem state => h state other hMem
      rw [List.foldlM_cons, hItem, ok_bind, List.foldl_cons]
      exact ih (fun state other hMem => hRest other hMem state) (next state item)

theorem mapM_eq {items : List α} {round : α → Strict β} {change : α → β}
    (h : ∀ item ∈ items, round item = .ok (change item)) :
    items.mapM round = .ok (items.map change) := by
  induction items with
  | nil => rfl
  | cons item rest ih =>
      obtain ⟨hItem, hRest⟩ := List.forall_mem_cons.mp h
      rw [List.mapM_cons, hItem, ok_bind, ih hRest]
      rfl

theorem allM_eq {items : List α} {round : α → Strict Bool} {holds : α → Bool}
    (h : ∀ item ∈ items, round item = .ok (holds item)) :
    items.allM round = .ok (items.all holds) := by
  induction items with
  | nil => rfl
  | cons item rest ih =>
      obtain ⟨hItem, hRest⟩ := List.forall_mem_cons.mp h
      rw [List.allM, hItem, ok_bind, List.all_cons]
      cases holds item with
      | false => rfl
      | true => exact ih hRest

end Strict

/-- A buffer as it is before anything is put into it. -/
def zeros (size : Nat) : List UInt8 :=
  List.replicate size 0

@[simp] theorem length_zeros (size : Nat) : (zeros size).length = size :=
  List.length_replicate

/-- A part from the front of a buffer is as long as was asked for. -/
theorem Strict.slice_zeros {size capacity : Nat} (h : size ≤ capacity) :
    Strict.slice (zeros capacity) 0 size = .ok (zeros size) := by
  rw [Strict.slice_eq (Nat.zero_le _) (by simpa using h), zeros, List.take_replicate,
    Nat.min_eq_left h]
  rfl

/-- What is copied over a whole buffer is what it holds afterwards. -/
theorem Strict.copy_zeros (source : List UInt8) :
    Strict.copy (zeros source.length) 0 source.length source = .ok source := by
  rw [Strict.copy_eq (Nat.zero_le _) (Nat.le_of_eq (length_zeros _).symm) (Nat.sub_zero _),
    List.take_zero, List.nil_append, List.drop_of_length_le (Nat.le_of_eq (length_zeros _)),
    List.append_nil]

/-! ## Bytes four at a time -/

/-- The bytes four at a time, and those that are left over. -/
def quads : List UInt8 → List (List UInt8) × List UInt8
  | b₀ :: b₁ :: b₂ :: b₃ :: rest => ([b₀, b₁, b₂, b₃] :: (quads rest).1, (quads rest).2)
  | rest => ([], rest)

/-- Quads are of four bytes. -/
theorem length_of_mem_quads {bytes quad : List UInt8} (h : quad ∈ (quads bytes).1) :
    quad.length = 4 := by
  induction bytes using quads.induct with
  | case1 b₀ b₁ b₂ b₃ rest ih =>
      rcases List.mem_cons.mp h with rfl | hRest
      · rfl
      · exact ih hRest
  | case2 rest hShort =>
      rw [quads] at h
      · cases h
      · exact hShort

/-- Less than a quad is left over. -/
theorem length_quads_lt (bytes : List UInt8) : (quads bytes).2.length < 4 := by
  induction bytes using quads.induct with
  | case1 b₀ b₁ b₂ b₃ rest ih => exact ih
  | case2 rest hShort =>
      rcases rest with _ | ⟨b₀, _ | ⟨b₁, _ | ⟨b₂, _ | ⟨b₃, rest⟩⟩⟩⟩
      · simp [quads]
      · simp [quads]
      · simp [quads]
      · simp [quads]
      · exact absurd rfl (hShort b₀ b₁ b₂ b₃ rest)

/-- The bytes four at a time, the last time perhaps fewer. -/
def chunks (bytes : List UInt8) : List (List UInt8) :=
  (quads bytes).1 ++ if (quads bytes).2 = [] then [] else [(quads bytes).2]

/-- No chunk is longer than a word. -/
theorem length_of_mem_chunks {bytes piece : List UInt8} (h : piece ∈ chunks bytes) :
    piece.length ≤ 4 := by
  rcases List.mem_append.mp h with hQuad | hRest
  · exact Nat.le_of_eq (length_of_mem_quads hQuad)
  · split at hRest
    · cases hRest
    · rw [List.mem_singleton.mp hRest]
      exact Nat.le_of_lt (length_quads_lt bytes)

/-- The words of some bytes are what the chunks mean. -/
theorem words_eq_chunks (bytes : List UInt8) : words bytes = (chunks bytes).map ofWire := by
  induction bytes using words.induct with
  | case1 => rfl
  | case2 b₀ b₁ b₂ b₃ rest ih => rw [words, ih]; rfl
  | case3 rest hNil hShort =>
      rcases rest with _ | ⟨b₀, _ | ⟨b₁, _ | ⟨b₂, _ | ⟨b₃, rest⟩⟩⟩⟩
      · exact absurd rfl hNil
      · rfl
      · rfl
      · rfl
      · exact absurd rfl (hShort b₀ b₁ b₂ b₃ rest)

/-- A piece copied to the front of a word that is zero. -/
def strictPad (piece : List UInt8) : Strict (List UInt8) :=
  Strict.copy [0, 0, 0, 0] 0 piece.length piece

theorem strictPad_eq {piece : List UInt8} (h : piece.length ≤ 4) :
    strictPad piece = .ok (toWire (ofWire piece : UInt32)) := by
  rw [strictPad, Strict.copy_eq (Nat.zero_le _) h (Nat.sub_zero _), toWire_ofWire_partial piece h]
  have hZeros : ([0, 0, 0, 0] : List UInt8) = List.replicate 4 0 := rfl
  rw [List.take_zero, List.nil_append, hZeros, List.drop_replicate]

namespace Checksum

/-- Shifts four bits out of the register. -/
def strictShift (register : UInt32) : Strict UInt32 := do
  return (register <<< 4) ^^^ (← Strict.get table.toList (register >>> 28).toNat)

/-- The four bits that are left of a word are an index of the table. -/
theorem strictShift_eq (register : UInt32) : strictShift register = .ok (shift register) := by
  have hIndex : (register >>> 28).toNat < table.size := by
    have hSize : table.size = 16 := rfl
    have hRegister := register.toNat_lt
    have hShift : (28 : UInt32).toNat % 32 = 28 := by decide
    rw [UInt32.toNat_shiftRight, hShift, Nat.shiftRight_eq_div_pow, hSize]
    omega
  have hEntry : table.toList[(register >>> 28).toNat]? =
      some (table.getD (register >>> 28).toNat 0) := by
    rw [Array.getElem?_toList, Array.getElem?_eq_getElem hIndex, Array.getD, dif_pos hIndex]
    rfl
  rw [strictShift, Strict.get_eq hEntry]
  rfl

def strictWord (checksum : Checksum) (word : UInt32) : Strict Checksum := do
  return ⟨← (List.range 8).foldlM (fun register _ => strictShift register)
    (checksum.value ^^^ word)⟩

theorem strictWord_eq (checksum : Checksum) (word : UInt32) :
    strictWord checksum word = .ok (checksum.word word) := by
  rw [strictWord, Strict.foldlM_eq fun register _ _ => strictShift_eq register]
  rfl

def strictQuad (checksum : Checksum) (quad : List UInt8) : Strict Checksum := do
  checksum.strictWord (ofWire [← Strict.get quad 0, ← Strict.get quad 1, ← Strict.get quad 2,
    ← Strict.get quad 3])

theorem strictQuad_eq (checksum : Checksum) {quad : List UInt8} (h : quad.length = 4) :
    strictQuad checksum quad = .ok (checksum.word (ofWire quad)) := by
  rcases quad with _ | ⟨b₀, _ | ⟨b₁, _ | ⟨b₂, _ | ⟨b₃, _ | ⟨b₄, rest⟩⟩⟩⟩⟩
  case cons.cons.cons.cons.nil => exact strictWord_eq checksum _
  all_goals simp at h

def strictUpdate (checksum : Checksum) (bytes : List UInt8) : Strict Checksum := do
  let checksum ← (quads bytes).1.foldlM strictQuad checksum
  if (quads bytes).2 = [] then return checksum
  else checksum.strictWord (ofWire (← strictPad (quads bytes).2))

/-- A checksum is updated without a trap. -/
theorem strictUpdate_eq (checksum : Checksum) (bytes : List UInt8) :
    checksum.strictUpdate bytes = .ok (checksum.update bytes) := by
  rw [strictUpdate, update, words_eq_chunks, chunks,
    Strict.foldlM_eq fun state quad hMem => state.strictQuad_eq (length_of_mem_quads hMem),
    Strict.ok_bind, List.foldl_map, List.foldl_append]
  split
  · rfl
  · rw [strictPad_eq (Nat.le_of_lt (length_quads_lt bytes)), Strict.ok_bind, strictWord_eq,
      ofWire_toWire]
    rfl

end Checksum

end Multidrop
