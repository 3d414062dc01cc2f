/-!
Numbers as they are written on the command line: in decimal, or in hexadecimal behind `0x`.
-/

namespace Multidrop.Cli

/-- Why a text is not the number wanted. -/
inductive NumberFault where
  | empty
  | invalidDigit
  | tooLarge
  | tooSmall
  /-- It is a number, but not one the argument can hold. -/
  | outOfRange (value : Nat)
  /-- It is a number, but not one below the given limit. -/
  | notBelow (value : Int) (limit : Nat)
  deriving DecidableEq

def NumberFault.message : NumberFault → String
  | empty => "cannot parse integer from empty string"
  | invalidDigit => "invalid digit found in string"
  | tooLarge => "number too large to fit in target type"
  | tooSmall => "number too small to fit in target type"
  | outOfRange value => s!"{value} is out of range"
  | notBelow value limit => s!"{value} is not in 0..={limit - 1}"

/-- The value of a digit. Letters count from ten on, in either case. -/
def digitValue (digit : Char) : Option Nat :=
  if '0' ≤ digit ∧ digit ≤ '9' then some (digit.toNat - '0'.toNat)
  else if 'a' ≤ digit ∧ digit ≤ 'z' then some (digit.toNat - 'a'.toNat + 10)
  else if 'A' ≤ digit ∧ digit ≤ 'Z' then some (digit.toNat - 'A'.toNat + 10)
  else none

/-- The number that `value` and the digits after it make, if it stays below the limit. Of a wrong
digit and a number too large the one that comes first is reported. -/
def readDigits (radix limit : Nat) (value : Nat) : List Char → Except NumberFault Nat
  | [] => .ok value
  | digit :: rest =>
    match digitValue digit with
    | none => .error .invalidDigit
    | some digit =>
      if radix ≤ digit then .error .invalidDigit
      else if limit ≤ value * radix + digit then .error .tooLarge
      else readDigits radix limit (value * radix + digit) rest

/-- At least one digit, perhaps behind a plus sign. -/
def readUnsigned (radix limit : Nat) : List Char → Except NumberFault Nat
  | [] => .error .empty
  | ['+'] => .error .invalidDigit
  | '+' :: digits => readDigits radix limit 0 digits
  | digits => readDigits radix limit 0 digits

/-- At least one decimal digit, perhaps behind a sign, of a number that sixty-four bits hold. -/
def readSigned : List Char → Except NumberFault Int
  | ['-'] => .error .invalidDigit
  | '-' :: digits =>
    match readDigits 10 (UInt64.size / 2 + 1) 0 digits with
    | .ok value => .ok (-Int.ofNat value)
    | .error .tooLarge => .error .tooSmall
    | .error fault => .error fault
  | text => Int.ofNat <$> readUnsigned 10 (UInt64.size / 2) text

/-- A number that sixty-four bits hold, in decimal or behind `0x` in hexadecimal. -/
def readWide : List Char → Except NumberFault Nat
  | '0' :: 'x' :: digits | '0' :: 'X' :: digits => readUnsigned 16 UInt64.size digits
  | text => readUnsigned 10 UInt64.size text

/-- A number that fits into so many bits. -/
def number (bits : Nat) (text : String) : Except NumberFault Nat :=
  match readWide text.toList with
  | .error fault => .error fault
  | .ok value => if value < 1 <<< bits then .ok value else .error (.outOfRange value)

/-- A decimal number that sixty-four bits hold. -/
def decimal (text : String) : Except NumberFault Nat :=
  readUnsigned 10 UInt64.size text.toList

/-- A decimal number below a limit. The fault of one beyond it tells the range. -/
def decimalBelow (limit : Nat) (text : String) : Except NumberFault Nat :=
  match readSigned text.toList with
  | .error fault => .error fault
  | .ok value =>
    if 0 ≤ value ∧ value < limit then .ok value.toNat else .error (.notBelow value limit)

end Multidrop.Cli
