import Multidrop.Layout
import Multidrop.Wire.Header

/-!
The laws of packed values: packing gives as many bytes as the type says, and unpacking gives the
value back. Sequences of whole words can be taken apart and put together without loss.
-/

namespace Multidrop

/-- A packed type whose values survive being written down and read again. -/
class LawfulPacked (α : Type) [Packed α] : Prop where
  length_pack : ∀ (order : ByteOrder) (value : α),
    (Packed.pack order value).length = Packed.size α
  unpack_pack : ∀ (order : ByteOrder) (value : α),
    Packed.unpack order (Packed.pack order value) = value

/-- An enumeration in which the number of a choice is read as that choice. -/
class LawfulCoded (α : Type) {ω : Type} [Coded α ω] : Prop where
  ofCode_code : ∀ choice : α, Coded.ofCode (Coded.code choice) = choice

namespace ByteOrder

@[simp] theorem length_arrange (order : ByteOrder) (bytes : List UInt8) :
    (order.arrange bytes).length = bytes.length := by
  cases order <;> simp [arrange]

@[simp] theorem arrange_arrange (order : ByteOrder) (bytes : List UInt8) :
    order.arrange (order.arrange bytes) = bytes := by
  cases order <;> simp [arrange]

end ByteOrder

namespace LawfulPacked

instance : LawfulPacked UInt8 where
  length_pack order value := by simp [Packed.pack, Packed.size]
  unpack_pack order value := by simp [Packed.pack, Packed.unpack, ofDigits_digits]

instance : LawfulPacked UInt16 where
  length_pack order value := by simp [Packed.pack, Packed.size]
  unpack_pack order value := by
    apply UInt16.toNat_inj.mp
    simp [Packed.pack, Packed.unpack, ofDigits_digits]

instance : LawfulPacked UInt32 where
  length_pack order value := by simp [Packed.pack, Packed.size]
  unpack_pack order value := by
    apply UInt32.toNat_inj.mp
    simp [Packed.pack, Packed.unpack, ofDigits_digits]

instance : LawfulPacked UInt64 where
  length_pack order value := by simp [Packed.pack, Packed.size]
  unpack_pack order value := by
    apply UInt64.toNat_inj.mp
    simp [Packed.pack, Packed.unpack, ofDigits_digits]

instance : LawfulPacked Int32 where
  length_pack order value := length_pack order value.toUInt32
  unpack_pack order value := by
    change (Packed.unpack order (Packed.pack order value.toUInt32) : UInt32).toInt32 = value
    rw [unpack_pack, Int32.toInt32_toUInt32]

/-- A lawful enumeration is as lawful on the wire as its numbers are. -/
instance {α ω : Type} [Coded α ω] [Packed ω] [LawfulCoded α] [LawfulPacked ω] : LawfulPacked α where
  length_pack order choice := length_pack order (Coded.code choice)
  unpack_pack order choice := by
    change Coded.ofCode (Packed.unpack order (Packed.pack order (Coded.code choice)) : ω) = choice
    rw [unpack_pack, LawfulCoded.ofCode_code]

end LawfulPacked

/-- A packed type whose values are numbers, the bytes of which stand on the wire with the least one
first. A signed value counts as the number with the same bits. -/
class PackedNumber (α : Type) [Packed α] extends LawfulPacked α where
  number : α → Nat
  size_pos : 0 < Packed.size α
  number_ofWire : ∀ bytes : List UInt8, bytes.length = Packed.size α →
    number (ofWire bytes) = ofDigits bytes

namespace PackedNumber

/-- A number is read in full if it is not larger than its bytes can tell. -/
theorem mod_ofDigits {bytes : List UInt8} {width : Nat} (h : bytes.length = width) :
    ofDigits bytes % Nat.pow 256 width = ofDigits bytes :=
  Nat.mod_eq_of_lt (h ▸ ofDigits_lt bytes)

instance : PackedNumber UInt8 where
  number := UInt8.toNat
  size_pos := by decide
  number_ofWire _ h := (UInt8.toNat_ofNat' ..).trans (mod_ofDigits h)

instance : PackedNumber UInt16 where
  number := UInt16.toNat
  size_pos := by decide
  number_ofWire _ h := (UInt16.toNat_ofNat' ..).trans (mod_ofDigits h)

instance : PackedNumber UInt32 where
  number := UInt32.toNat
  size_pos := by decide
  number_ofWire _ h := (UInt32.toNat_ofNat' ..).trans (mod_ofDigits h)

instance : PackedNumber UInt64 where
  number := UInt64.toNat
  size_pos := by decide
  number_ofWire _ h := (UInt64.toNat_ofNat' ..).trans (mod_ofDigits h)

instance : PackedNumber Int32 where
  number value := value.toUInt32.toNat
  size_pos := by decide
  number_ofWire _ h := (UInt32.toNat_ofNat' ..).trans (mod_ofDigits h)

end PackedNumber

instance : LawfulCoded Command := ⟨by intro choice; cases choice <;> rfl⟩
instance : LawfulCoded Query := ⟨by intro choice; cases choice <;> rfl⟩
instance : LawfulCoded NodeStatus := ⟨by intro choice; cases choice <;> rfl⟩
instance : LawfulCoded FlashStatus := ⟨by intro choice; cases choice <;> rfl⟩

section Wire

variable {α : Type} [Packed α] [LawfulPacked α]

@[simp] theorem length_toWire (value : α) : (toWire value).length = Packed.size α :=
  LawfulPacked.length_pack .little value

@[simp] theorem ofWire_toWire (value : α) : (ofWire (toWire value) : α) = value :=
  LawfulPacked.unpack_pack .little value

/-- A value is read from the front of bytes, whatever follows it. -/
theorem read?_toWire (value : α) (rest : List UInt8) :
    Packed.read? α (toWire value ++ rest) = some value := by
  have hTake : (toWire value ++ rest).take (Packed.size α) = toWire value := by
    rw [← length_toWire value, List.take_left]
  simp only [Packed.read?, List.length_append, length_toWire, Nat.le_add_right, if_true, hTake]
  exact congrArg some (ofWire_toWire value)

end Wire

section Number

variable {α : Type} [Packed α] [PackedNumber α]

theorem toWire_number (value : α) :
    toWire value = digits (Packed.size α) (PackedNumber.number value) := by
  have hLength : (toWire value).length = Packed.size α := length_toWire value
  have hNumber := PackedNumber.number_ofWire (α := α) (toWire value) hLength
  rw [ofWire_toWire] at hNumber
  rw [hNumber, ← hLength, digits_ofDigits]

/-- A number is known by its value. -/
theorem PackedNumber.number_injective : Function.Injective (PackedNumber.number (α := α)) := by
  intro first second hSame
  have hWire : toWire first = toWire second := by
    rw [toWire_number, toWire_number, hSame]
  rw [← ofWire_toWire first, hWire, ofWire_toWire]

/-- As many bytes as a number takes are the bytes of the number they make. -/
theorem toWire_ofWire {bytes : List UInt8} (h : bytes.length = Packed.size α) :
    toWire (ofWire bytes : α) = bytes := by
  rw [toWire_number, PackedNumber.number_ofWire bytes h, ← h, digits_ofDigits]

end Number

theorem toWire_byte (value : UInt8) : toWire value = [value] := by
  change [UInt8.ofNat value.toNat] = [value]
  rw [UInt8.ofNat_toNat]

theorem ofWire_byte (byte : UInt8) : (ofWire [byte] : UInt8) = byte := by
  rw [← toWire_byte, ofWire_toWire]

@[simp] theorem size_word : Packed.size UInt32 = 4 := rfl

/-- Four bytes are the bytes of the word they make. -/
theorem toWire_ofWire_word (bytes : List UInt8) (h : bytes.length = 4) :
    toWire (ofWire bytes : UInt32) = bytes :=
  toWire_ofWire h

/-- Whole words are none, or four bytes before whole words. -/
@[elab_as_elim]
theorem whole_words_induction {motive : List UInt8 → Prop} (nil : motive [])
    (word : ∀ b₀ b₁ b₂ b₃ rest, rest.length % 4 = 0 → motive rest →
      motive (b₀ :: b₁ :: b₂ :: b₃ :: rest))
    (bytes : List UInt8) (h : bytes.length % 4 = 0) : motive bytes := by
  induction bytes using words.induct with
  | case1 => exact nil
  | case2 b₀ b₁ b₂ b₃ rest ih =>
      have hRest : rest.length % 4 = 0 := by
        simp only [List.length_cons] at h
        omega
      exact word b₀ b₁ b₂ b₃ rest hRest (ih hRest)
  | case3 rest hNil hShort =>
      -- A partial word has one to three bytes.
      rcases rest with _ | ⟨b₀, _ | ⟨b₁, _ | ⟨b₂, _ | ⟨b₃, rest⟩⟩⟩⟩
      · exact absurd rfl hNil
      · simp at h
      · simp at h
      · simp at h
      · exact absurd rfl (hShort b₀ b₁ b₂ b₃ rest)

/-- Whole words can be split off in front. -/
theorem words_append (first second : List UInt8) (h : first.length % 4 = 0) :
    words (first ++ second) = words first ++ words second := by
  refine whole_words_induction rfl (fun b₀ b₁ b₂ b₃ rest _ ih => ?_) first h
  simp only [List.cons_append, words, ih]

/-- The words of whole words, written down again. -/
theorem flatten_words (bytes : List UInt8) (h : bytes.length % 4 = 0) :
    ((words bytes).map toWire).flatten = bytes := by
  refine whole_words_induction rfl (fun b₀ b₁ b₂ b₃ rest _ ih => ?_) bytes h
  simp only [words, List.map_cons, List.flatten_cons, ih]
  rw [toWire_ofWire_word [b₀, b₁, b₂, b₃] rfl]
  rfl

/-- Zeros at the end do not change a number. -/
theorem ofDigits_zeros (bytes : List UInt8) (count : Nat) :
    ofDigits (bytes ++ List.replicate count 0) = ofDigits bytes := by
  induction bytes with
  | nil =>
      induction count with
      | zero => rfl
      | succ count ih =>
          simp only [List.nil_append, ofDigits] at ih ⊢
          rw [List.replicate_succ, ofDigits, ih]
          rfl
  | cons byte rest ih => simp [ofDigits, ih]

/-- A partial word is filled up with zeros. -/
theorem toWire_ofWire_partial (bytes : List UInt8) (h : bytes.length ≤ 4) :
    toWire (ofWire bytes : UInt32) = bytes ++ List.replicate (4 - bytes.length) 0 := by
  have hWord : (ofWire bytes : UInt32) =
      ofWire (bytes ++ List.replicate (4 - bytes.length) 0) :=
    congrArg UInt32.ofNat (ofDigits_zeros bytes (4 - bytes.length)).symm
  rw [hWord, toWire_ofWire_word _ (by simp; omega)]

/-- The words of any bytes, written down again, begin with these bytes. -/
theorem prefix_flatten_words (bytes : List UInt8) : bytes <+: ((words bytes).map toWire).flatten := by
  induction bytes using words.induct with
  | case1 => exact List.prefix_rfl
  | case2 b₀ b₁ b₂ b₃ rest ih =>
      simp only [words, List.map_cons, List.flatten_cons]
      rw [toWire_ofWire_word [b₀, b₁, b₂, b₃] rfl]
      exact (List.prefix_append_right_inj [b₀, b₁, b₂, b₃]).mpr ih
  | case3 rest hNil hShort =>
      rcases rest with _ | ⟨b₀, _ | ⟨b₁, _ | ⟨b₂, _ | ⟨b₃, rest⟩⟩⟩⟩
      · exact List.prefix_rfl
      · simp [words, toWire_ofWire_partial]
      · simp [words, toWire_ofWire_partial]
      · simp [words, toWire_ofWire_partial]
      · exact absurd rfl (hShort b₀ b₁ b₂ b₃ rest)

namespace Header

/-- A header is packed field by field. -/
theorem pack_eq (order : ByteOrder) (header : Header) :
    Packed.pack order header = Packed.pack order header.length ++
      (Packed.pack order header.address ++ Packed.pack order header.command) :=
  List.append_assoc ..

/-- It is unpacked field by field. -/
theorem unpack_eq (order : ByteOrder) (bytes : List UInt8) :
    (Packed.unpack order bytes : Header) =
      ⟨Packed.unpack order (bytes.take 2), Packed.unpack order ((bytes.drop 2).take 1),
        Packed.unpack order (bytes.drop 3)⟩ :=
  rfl

instance : LawfulPacked Header where
  length_pack order header := by
    rw [pack_eq]
    simp only [List.length_append, LawfulPacked.length_pack]
    rfl
  unpack_pack order header := by
    have hLength : (Packed.pack order header.length).length = 2 := LawfulPacked.length_pack ..
    have hAddress : (Packed.pack order header.address).length = 1 := LawfulPacked.length_pack ..
    rw [pack_eq, unpack_eq, List.take_left' hLength, List.drop_left' hLength,
      List.take_left' hAddress, ← List.append_assoc,
      List.drop_left' (by rw [List.length_append, hLength, hAddress]),
      LawfulPacked.unpack_pack, LawfulPacked.unpack_pack, LawfulPacked.unpack_pack]

@[simp] theorem size_packed : Packed.size Header = size := rfl

end Header

end Multidrop
