/-!
Numbers and bytes in hexadecimal, with lower case letters.
-/

namespace Multidrop.Hexadecimal

/-- The fewest hexadecimal digits of a number, at least one. -/
def digits (number : Nat) : String :=
  String.ofList (Nat.toDigits 16 number)

/-- A number behind `0x`, in as few digits as it takes. -/
def short (number : Nat) : String :=
  "0x" ++ digits number

/-- The `width` lowest hexadecimal digits of a number. -/
def padded : (width number : Nat) → List Char
  | 0, _ => []
  | width + 1, number => padded width (number / 16) ++ [Nat.digitChar (number % 16)]

/-- A word behind `0x`, in eight digits. -/
def word (word : UInt32) : String :=
  "0x" ++ String.ofList (padded 8 word.toNat)

/-- Bytes one after the other, in two digits each. -/
def bytes (bytes : List UInt8) : String :=
  String.ofList (bytes.flatMap fun byte => padded 2 byte.toNat)

end Multidrop.Hexadecimal
