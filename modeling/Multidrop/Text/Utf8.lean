/-!
Bytes as text. Well-formed UTF-8 is read as the characters it stands for. Of anything else, each
longest piece that begins like a character, or a single byte that does not, is read as one
replacement character.
-/

namespace Multidrop.Utf8

/-- What is read in place of malformed bytes. -/
def replacement : Char := '\uFFFD'

/-- How many bytes follow the first byte of a character, and between which bounds the next of them
lies. The bounds leave out characters that could be written shorter, surrogates, and what lies
beyond the last code point. -/
def lead (byte : UInt8) : Option (Nat × UInt8 × UInt8) :=
  if byte < 0x80 then some (0, 0x80, 0xBF)
  else if byte < 0xC2 then none
  else if byte < 0xE0 then some (1, 0x80, 0xBF)
  else if byte = 0xE0 then some (2, 0xA0, 0xBF)
  else if byte = 0xED then some (2, 0x80, 0x9F)
  else if byte < 0xF0 then some (2, 0x80, 0xBF)
  else if byte = 0xF0 then some (3, 0x90, 0xBF)
  else if byte < 0xF4 then some (3, 0x80, 0xBF)
  else if byte = 0xF4 then some (3, 0x80, 0x8F)
  else none

/-- The bits that a first byte with so many bytes after it gives to its character. -/
def leadBits (tails : Nat) (byte : UInt8) : Nat :=
  if tails = 0 then byte.toNat else byte.toNat % (1 <<< (6 - tails))

/-- Bytes of a character after the first one: the rest of the character's bits are appended to
`bits`. If a byte does not lie between the bounds the character is malformed and gives none. Bytes
not looked at are given back. -/
def tails : (count : Nat) → (low high : UInt8) → (bits : Nat) → List UInt8 →
    Option Nat × List UInt8
  | 0, _, _, bits, rest => (some bits, rest)
  | _ + 1, _, _, _, [] => (none, [])
  | count + 1, low, high, bits, byte :: rest =>
    if low ≤ byte ∧ byte ≤ high then
      tails count 0x80 0xBF (bits * 64 + byte.toNat % 64) rest
    else (none, byte :: rest)

theorem length_tails (count : Nat) (low high : UInt8) (bits : Nat) (bytes : List UInt8) :
    (tails count low high bits bytes).2.length ≤ bytes.length := by
  induction bytes generalizing count low high bits with
  | nil => cases count <;> simp [tails]
  | cons byte rest ih =>
    cases count with
    | zero => simp [tails]
    | succ count =>
      simp only [tails]
      split
      · exact Nat.le_succ_of_le (ih ..)
      · simp

/-- The text of bytes, malformed pieces replaced. -/
def decode : List UInt8 → List Char
  | [] => []
  | byte :: rest =>
    match lead byte with
    | none => replacement :: decode rest
    | some (count, low, high) =>
      match _found : tails count low high (leadBits count byte) rest with
      | (some bits, unread) => Char.ofNat bits :: decode unread
      | (none, unread) => replacement :: decode unread
termination_by bytes => bytes.length
decreasing_by
  · simp
  all_goals
    have shorter := length_tails count low high (leadBits count byte) rest
    rw [_found] at shorter
    simp only [List.length_cons] at shorter ⊢
    omega

end Multidrop.Utf8
