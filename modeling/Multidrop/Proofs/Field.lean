import Multidrop.Field
import Multidrop.Proofs.Packed

/-!
Fields of an image. Putting a value in place changes the bytes of that field alone, and afterwards
the field has the value.
-/

namespace Multidrop.Field

variable {α : Type} [Packed α]

/-- Whether the byte with this number belongs to the field. -/
def Covers (field : Field α) (i : Nat) : Prop :=
  field.offset ≤ i ∧ i < field.offset + field.size

instance (field : Field α) (i : Nat) : Decidable (field.Covers i) :=
  inferInstanceAs (Decidable (_ ∧ _))

/-- A value is put between what stands before its place and what stands behind. -/
theorem put_of_fits (field : Field α) {image : List UInt8}
    (h : field.offset + field.size ≤ image.length) (value : α) :
    field.put image value = image.take field.offset ++
      (toWire value ++ image.drop (field.offset + field.size)) := by
  rw [put, set?, if_pos h, Option.getD_some, List.append_assoc]

/-- Where the image is too short nothing is put. -/
theorem put_of_short (field : Field α) {image : List UInt8}
    (h : ¬field.offset + field.size ≤ image.length) (value : α) : field.put image value = image := by
  rw [put, set?, if_neg h, Option.getD_none]

theorem get?_of_fits (field : Field α) {image : List UInt8}
    (h : field.offset + field.size ≤ image.length) :
    field.get? image = some (ofWire ((image.drop field.offset).take field.size)) := by
  have hLength : Packed.size α ≤ (image.drop field.offset).length := by
    rw [List.length_drop]
    simp only [size] at h
    omega
  rw [get?, Packed.read?, if_pos hLength]
  rfl

/-- What follows the image does not matter to a field that is within it. -/
theorem get?_append (field : Field α) {image : List UInt8}
    (h : field.offset + field.size ≤ image.length) (more : List UInt8) :
    field.get? (image ++ more) = field.get? image := by
  have hLonger : field.offset + field.size ≤ (image ++ more).length := by
    rw [List.length_append]
    omega
  rw [get?_of_fits field h, get?_of_fits field hLonger,
    List.drop_append_of_le_length (by omega),
    List.take_append_of_le_length (by rw [List.length_drop]; omega)]

section Lawful

variable [LawfulPacked α]

@[simp] theorem length_put (field : Field α) (image : List UInt8) (value : α) :
    (field.put image value).length = image.length := by
  by_cases h : field.offset + field.size ≤ image.length
  · rw [put_of_fits field h]
    simp only [List.length_append, List.length_take, List.length_drop, length_toWire]
    simp only [size] at *
    omega
  · rw [put_of_short field h]

/-- Byte by byte, an image with a field put in place. -/
theorem getElem?_put (field : Field α) {image : List UInt8}
    (h : field.offset + field.size ≤ image.length) (value : α) (i : Nat) :
    (field.put image value)[i]? =
      if field.offset ≤ i ∧ i < field.offset + field.size then (toWire value)[i - field.offset]?
      else image[i]? := by
  have hTake : (image.take field.offset).length = field.offset := by
    rw [List.length_take]
    omega
  have hWire : (toWire value).length = field.size := length_toWire value
  rw [put_of_fits field h, List.getElem?_append, List.getElem?_append, hTake, hWire]
  by_cases hBefore : i < field.offset
  · have hOut : ¬(field.offset ≤ i ∧ i < field.offset + field.size) := by omega
    rw [if_pos hBefore, if_neg hOut, List.getElem?_take, if_pos hBefore]
  · rw [if_neg hBefore]
    by_cases hInside : i < field.offset + field.size
    · rw [if_pos (by omega), if_pos (by omega)]
    · have hPlace : field.offset + field.size + (i - field.offset - field.size) = i := by omega
      rw [if_neg (by omega), if_neg (by omega), List.getElem?_drop, hPlace]

/-- Putting a value in place leaves the rest of the image alone. -/
theorem getElem?_put_outside (field : Field α) {i : Nat} (h : ¬field.Covers i)
    (image : List UInt8) (value : α) : (field.put image value)[i]? = image[i]? := by
  by_cases hFits : field.offset + field.size ≤ image.length
  · rw [getElem?_put field hFits]
    exact if_neg h
  · rw [put_of_short field hFits]

/-- The last value that was put counts. -/
theorem put_put (field : Field α) (image : List UInt8) (first second : α) :
    field.put (field.put image first) second = field.put image second := by
  by_cases h : field.offset + field.size ≤ image.length
  · apply List.ext_getElem?
    intro i
    rw [getElem?_put field (by rw [length_put]; exact h), getElem?_put field h,
      getElem?_put field h]
    split <;> rfl
  · rw [put_of_short field h, put_of_short field h]

/-- What was put is what is got. -/
theorem get?_put (field : Field α) {image : List UInt8}
    (h : field.offset + field.size ≤ image.length) (value : α) :
    field.get? (field.put image value) = some value := by
  have hTake : (image.take field.offset).length = field.offset := by
    rw [List.length_take]
    omega
  rw [get?, put_of_fits field h, List.drop_left' hTake, read?_toWire]

/-- What was put elsewhere leaves a field alone. -/
theorem get?_put_of_disjoint {β : Type} [Packed β] (field : Field α) (other : Field β)
    {image : List UInt8} (hField : field.offset + field.size ≤ image.length)
    (hOther : other.offset + other.size ≤ image.length)
    (hDisjoint : field.offset + field.size ≤ other.offset ∨
      other.offset + other.size ≤ field.offset) (value : α) :
    other.get? (field.put image value) = other.get? image := by
  rw [get?_of_fits other (by rw [length_put]; exact hOther), get?_of_fits other hOther]
  congr 2
  apply List.ext_getElem?
  intro i
  rw [List.getElem?_take, List.getElem?_take]
  split
  · rw [List.getElem?_drop, List.getElem?_drop, getElem?_put field hField, if_neg (by omega)]
  · rfl

/-- Values put in places apart from each other stand there whichever came first. -/
theorem put_comm {β : Type} [Packed β] [LawfulPacked β] (field : Field α) (other : Field β)
    (hDisjoint : field.offset + field.size ≤ other.offset ∨
      other.offset + other.size ≤ field.offset) (image : List UInt8) (first : α) (second : β) :
    other.put (field.put image first) second = field.put (other.put image second) first := by
  by_cases hField : field.offset + field.size ≤ image.length
  · by_cases hOther : other.offset + other.size ≤ image.length
    · apply List.ext_getElem?
      intro i
      rw [getElem?_put other (by rwa [length_put]), getElem?_put field hField,
        getElem?_put field (by rwa [length_put]), getElem?_put other hOther]
      by_cases hInside : field.offset ≤ i ∧ i < field.offset + field.size
      · have hOutside : ¬(other.offset ≤ i ∧ i < other.offset + other.size) := by omega
        rw [if_neg hOutside, if_pos hInside, if_pos hInside]
      · rw [if_neg hInside, if_neg hInside]
    · rw [put_of_short other hOther, put_of_short other (by rwa [length_put])]
  · rw [put_of_short field hField, put_of_short field (by rwa [length_put])]

end Lawful

/-- A field can be set exactly if the image reaches to its end. -/
theorem isSome_set? (field : Field α) (image : List UInt8) (value : α) :
    (field.set? image value).isSome = true ↔ field.offset + field.size ≤ image.length := by
  unfold set?
  split
  case isTrue hFits => exact ⟨fun _ => hFits, fun _ => rfl⟩
  case isFalse hShort => exact ⟨nofun, fun hFits => absurd hFits hShort⟩

section Number

variable [PackedNumber α]

theorem get?_of_short (field : Field α) {image : List UInt8}
    (h : ¬field.offset + field.size ≤ image.length) : field.get? image = none := by
  have hSize : 0 < Packed.size α := PackedNumber.size_pos
  have hShort : ¬Packed.size α ≤ (image.drop field.offset).length := by
    rw [List.length_drop]
    simp only [size] at h
    omega
  rw [get?, Packed.read?, if_neg hShort]

/-- A field has the number that its bytes stand for, if the image has these bytes. -/
theorem get?_eq_some_iff (field : Field α) (image : List UInt8) (value : α) :
    field.get? image = some value ↔ field.offset + field.size ≤ image.length ∧
      PackedNumber.number value = ofDigits ((image.drop field.offset).take field.size) := by
  by_cases hFits : field.offset + field.size ≤ image.length
  · have hLength : ((image.drop field.offset).take field.size).length = Packed.size α := by
      rw [List.length_take, List.length_drop]
      exact Nat.min_eq_left (by omega)
    rw [get?_of_fits field hFits, Option.some_inj, ← PackedNumber.number_ofWire _ hLength]
    constructor
    · rintro rfl
      exact ⟨hFits, rfl⟩
    · rintro ⟨_, hSame⟩
      exact (PackedNumber.number_injective hSame).symm
  · rw [get?_of_short field hFits]
    exact ⟨nofun, fun h => absurd h.1 hFits⟩

/-- A field can be got exactly if the image reaches to its end. -/
theorem isSome_get? (field : Field α) (image : List UInt8) :
    (field.get? image).isSome = true ↔ field.offset + field.size ≤ image.length := by
  by_cases hFits : field.offset + field.size ≤ image.length
  · rw [get?_of_fits field hFits]
    exact ⟨fun _ => hFits, fun _ => rfl⟩
  · rw [get?_of_short field hFits]
    exact ⟨nofun, fun h => absurd h hFits⟩

/-- To put back what stands there changes nothing. -/
theorem put_of_get? (field : Field α) {image : List UInt8} {value : α}
    (h : field.get? image = some value) : field.put image value = image := by
  by_cases hFits : field.offset + field.size ≤ image.length
  · have hLength : ((image.drop field.offset).take field.size).length = Packed.size α := by
      rw [List.length_take, List.length_drop]
      exact Nat.min_eq_left (by omega)
    rw [get?_of_fits field hFits] at h
    rw [put_of_fits field hFits, ← Option.some.inj h, toWire_ofWire hLength,
      ← List.drop_drop, List.take_append_drop, List.take_append_drop]
  · exact put_of_short field hFits value

/-- A field that holds a number is there in exactly the images that have its bytes, to be read and
to be written alike. It is read as the number that these bytes stand for. Writing it changes these
bytes alone, and afterwards the field has the value; writing back what was read changes nothing, and
neither does writing where there is no room. Of two fields apart from each other it does not matter
which one is written first. -/
theorem access_laws (field : Field α) (image : List UInt8) :
    ((field.get? image).isSome = true ↔ field.offset + field.size ≤ image.length) ∧
    (∀ value, field.get? image = some value ↔ field.offset + field.size ≤ image.length ∧
      PackedNumber.number value = ofDigits ((image.drop field.offset).take field.size)) ∧
    (∀ value, ((field.set? image value).isSome = true ↔
        field.offset + field.size ≤ image.length) ∧
      (field.set? image value = none → field.put image value = image) ∧
      ∀ after, field.set? image value = some after → field.put image value = after ∧
        field.get? after = some value ∧ after.length = image.length ∧
        ∀ i, ¬field.Covers i → after[i]? = image[i]?) ∧
    (∀ value, field.get? image = some value → field.set? image value = some image) ∧
    ∀ {β : Type} [Packed β] [PackedNumber β] (other : Field β),
      field.offset + field.size ≤ other.offset ∨ other.offset + other.size ≤ field.offset →
      ∀ first second,
        other.put (field.put image first) second = field.put (other.put image second) first ∧
        (other.set? (field.put image first) second).isSome = (other.set? image second).isSome ∧
        (field.set? (other.put image second) first).isSome = (field.set? image first).isSome := by
  refine ⟨isSome_get? field image, get?_eq_some_iff field image, ?_, ?_, ?_⟩
  · intro value
    refine ⟨isSome_set? field image value, fun hNone => by rw [put, hNone, Option.getD_none], ?_⟩
    intro after hAfter
    have hPut : field.put image value = after := by rw [put, hAfter, Option.getD_some]
    have hFits : field.offset + field.size ≤ image.length :=
      (isSome_set? field image value).mp (by rw [hAfter, Option.isSome_some])
    rw [← hPut]
    exact ⟨rfl, get?_put field hFits value, length_put field image value,
      fun i hOutside => getElem?_put_outside field hOutside image value⟩
  · intro value hRead
    have hFits := ((get?_eq_some_iff field image value).mp hRead).1
    have hSame := put_of_get? field hRead
    rw [put_of_fits field hFits, ← List.append_assoc] at hSame
    rw [set?, if_pos hFits, hSame]
  · intro β _ _ other hDisjoint first second
    refine ⟨put_comm field other hDisjoint image first second, ?_, ?_⟩
    · rw [Bool.eq_iff_iff, isSome_set?, isSome_set?, length_put]
    · rw [Bool.eq_iff_iff, isSome_set?, isSome_set?, length_put]

/-- Two numbers next to each other, the second one negative. -/
theorem access_laws_adjacent :
    let field : Field UInt16 := ⟨1⟩
    let other : Field Int32 := ⟨3⟩
    let image : List UInt8 := [1, 2, 3, 4, 5, 6, 7, 8]
    field.set? image 0x0302 = some image ∧
      field.put (other.put image (-2)) 0xBEEF = other.put (field.put image 0xBEEF) (-2) ∧
      field.put (other.put image (-2)) 0xBEEF = [1, 0xEF, 0xBE, 0xFE, 0xFF, 0xFF, 0xFF, 8] := by
  intro field other image
  obtain ⟨_, hValue, _, hBack, hApart⟩ := access_laws field image
  have hRead : field.get? image = some 0x0302 := (hValue 0x0302).mpr (by decide)
  refine ⟨hBack 0x0302 hRead, (hApart other (.inl (by decide)) 0xBEEF (-2)).1.symm, by decide⟩

end Number

end Multidrop.Field
