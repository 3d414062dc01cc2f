import Mathlib.Data.List.Forall2
import Mathlib.Data.Nat.Digits.Defs
import Multidrop.Cli.Number
import Multidrop.Text.Hexadecimal

/-!
The texts that are read as numbers. They are told by a grammar of their own, in which digits have
their values from the way digits are printed and a number its value from their places. What is read
is exactly what the grammar has, as far as sixty-four bits and the argument can hold it. A number in
print, in decimal or behind `0x`, is always among these texts.
-/

namespace Multidrop.Cli

/-- A digit of a base up to sixteen, with its value. Letters count in either case. -/
structure IsDigit (base : Nat) (digit : Char) (value : Nat) : Prop where
  below : value < base
  printed : digit = Nat.digitChar value ∨ digit = (Nat.digitChar value).toUpper

/-- Digits of a base, the most significant one first, and the number that they make. -/
def Digits (base : Nat) (text : List Char) (value : Nat) : Prop :=
  ∃ values, List.Forall₂ (IsDigit base) text values ∧ value = Nat.ofDigits base values.reverse

/-- At least one digit of a base, perhaps behind a plus sign. -/
inductive Unsigned (base : Nat) : List Char → Nat → Prop where
  | bare {digits : List Char} {value : Nat}
      (nonempty : digits ≠ []) (made : Digits base digits value) : Unsigned base digits value
  | plus {digits : List Char} {value : Nat}
      (nonempty : digits ≠ []) (made : Digits base digits value) :
      Unsigned base ('+' :: digits) value

/-- The grammar of numbers: in decimal, or in hexadecimal behind `0x` or `0X`. -/
inductive Numeral : List Char → Nat → Prop where
  | decimal {text : List Char} {value : Nat} (number : Unsigned 10 text value) : Numeral text value
  | hexadecimal {letter : Char} {text : List Char} {value : Nat}
      (marked : letter = 'x' ∨ letter = 'X') (number : Unsigned 16 text value) :
      Numeral ('0' :: letter :: text) value

theorem toNat_of_digitValue {digit : Char} {value : Nat} (h : digitValue digit = some value) :
    digit.toNat = value + 48 ∧ value < 10 ∨
      (digit.toNat = value + 87 ∨ digit.toNat = value + 55) ∧ 10 ≤ value := by
  unfold digitValue at h
  simp only [Char.le_def, UInt32.le_iff_toNat_le] at h
  change (if 48 ≤ digit.toNat ∧ digit.toNat ≤ 57 then some (digit.toNat - 48)
    else if 97 ≤ digit.toNat ∧ digit.toNat ≤ 122 then some (digit.toNat - 97 + 10)
    else if 65 ≤ digit.toNat ∧ digit.toNat ≤ 90 then some (digit.toNat - 65 + 10)
    else none) = some value at h
  split_ifs at h <;> cases h <;> omega

/-- The value of a character is that of the digit it prints. -/
theorem digitValue_eq_some_iff {value : Nat} (hValue : value < 16) (digit : Char) :
    digitValue digit = some value ↔
      digit = Nat.digitChar value ∨ digit = (Nat.digitChar value).toUpper := by
  constructor
  · intro h
    -- The code of the character is known, and only sixteen values are left to look at.
    have hPrinted : ∀ value < 16,
        (value < 10 → Char.ofNat (value + 48) = Nat.digitChar value) ∧
        (10 ≤ value → Char.ofNat (value + 87) = Nat.digitChar value ∧
          Char.ofNat (value + 55) = (Nat.digitChar value).toUpper) := by decide
    obtain ⟨hDecimal, hLetter⟩ := hPrinted value hValue
    rw [← Char.ofNat_toNat digit]
    rcases toNat_of_digitValue h with ⟨hCode, hLess⟩ | ⟨hCode | hCode, hMore⟩
    · exact .inl (hCode ▸ hDecimal hLess)
    · exact .inl (hCode ▸ (hLetter hMore).1)
    · exact .inr (hCode ▸ (hLetter hMore).2)
  · have hRead : ∀ value < 16, digitValue (Nat.digitChar value) = some value ∧
        digitValue (Nat.digitChar value).toUpper = some value := by decide
    rintro (rfl | rfl)
    · exact (hRead value hValue).1
    · exact (hRead value hValue).2

section Digits

variable {base : Nat}

/-- The digits of a base are those whose value is below it. -/
theorem isDigit_iff (hBase : base ≤ 16) (digit : Char) (value : Nat) :
    IsDigit base digit value ↔ digitValue digit = some value ∧ value < base := by
  constructor
  · rintro ⟨hBelow, hPrinted⟩
    exact ⟨(digitValue_eq_some_iff (by omega) digit).mpr hPrinted, hBelow⟩
  · rintro ⟨hValue, hBelow⟩
    exact ⟨hBelow, (digitValue_eq_some_iff (by omega) digit).mp hValue⟩

theorem Digits.digit_of_mem {text : List Char} {value : Nat} (h : Digits base text value)
    {digit : Char} (hMem : digit ∈ text) : ∃ value, IsDigit base digit value := by
  obtain ⟨values, hValues, -⟩ := h
  induction hValues with
  | nil => cases hMem
  | cons hDigit _ ih =>
      rcases List.mem_cons.mp hMem with rfl | hRest
      · exact ⟨_, hDigit⟩
      · exact ih hRest

/-- One digit more at the end makes the others count for more. -/
theorem Digits.snoc {text : List Char} {value : Nat} (h : Digits base text value) {digit : Char}
    {last : Nat} (hDigit : IsDigit base digit last) :
    Digits base (text ++ [digit]) (last + base * value) := by
  obtain ⟨values, hValues, rfl⟩ := h
  refine ⟨values ++ [last], List.rel_append hValues (.cons hDigit .nil), ?_⟩
  rw [List.reverse_append, List.reverse_singleton, List.singleton_append, Nat.ofDigits_cons]

/-- It does not matter whether letters are capital. -/
theorem Digits.map_toUpper (hBase : base ≤ 16) {text : List Char} {value : Nat}
    (h : Digits base text value) : Digits base (text.map Char.toUpper) value := by
  have hTwice : ∀ value < 16,
      (Nat.digitChar value).toUpper.toUpper = (Nat.digitChar value).toUpper := by decide
  obtain ⟨values, hValues, rfl⟩ := h
  refine ⟨values, List.forall₂_map_left_iff.mpr (hValues.imp ?_), rfl⟩
  rintro digit value ⟨hBelow, hPrinted⟩
  refine ⟨hBelow, .inr ?_⟩
  rcases hPrinted with rfl | rfl
  · rfl
  · exact hTwice value (by omega)

/-- A number in print is made of its digits. -/
theorem digits_toDigits (hLower : 1 < base) (value : Nat) :
    Digits base (Nat.toDigits base value) value := by
  induction value using Nat.strong_induction_on with
  | h value ih =>
      by_cases hOne : value < base
      · rw [Nat.toDigits_of_lt_base hOne]
        refine ⟨[value], .cons ⟨hOne, .inl rfl⟩ .nil, ?_⟩
        rw [List.reverse_singleton, Nat.ofDigits_singleton]
      · have hLess : value / base < value := Nat.div_lt_self (by omega) hLower
        have hLast : IsDigit base (Nat.digitChar (value % base)) (value % base) :=
          ⟨Nat.mod_lt value (by omega), .inl rfl⟩
        rw [Nat.toDigits_of_base_le hLower (by omega)]
        simpa only [Nat.mod_add_div] using (ih _ hLess).snoc hLast

/-- A number that was there before the digits is one more place in front of them. The first of the
digits can as well be put behind it beforehand. -/
theorem ofDigits_snoc (values : List Nat) (digit start : Nat) :
    Nat.ofDigits base ((digit :: values).reverse ++ [start]) =
      Nat.ofDigits base (values.reverse ++ [start * base + digit]) := by
  have hPair : Nat.ofDigits base ([digit] ++ [start]) =
      Nat.ofDigits base [start * base + digit] := by
    rw [List.singleton_append, Nat.ofDigits_cons, Nat.ofDigits_singleton, Nat.ofDigits_singleton]
    ring
  rw [List.reverse_cons, List.append_assoc, Nat.ofDigits_append, hPair, Nat.ofDigits_append]

theorem le_ofDigits_snoc (hBase : 0 < base) (values : List Nat) (start : Nat) :
    start ≤ Nat.ofDigits base (values ++ [start]) := by
  rw [Nat.ofDigits_append, Nat.ofDigits_singleton]
  calc
    start ≤ base ^ values.length * start := Nat.le_mul_of_pos_left start (Nat.pow_pos hBase)
    _ ≤ _ := Nat.le_add_left ..

end Digits

section Reading

variable {base limit : Nat}

/-- A digit is taken unless the number becomes too large by it. -/
theorem readDigits_cons (hBase : base ≤ 16) {digit : Char} {value : Nat}
    (hDigit : IsDigit base digit value) (start : Nat) (rest : List Char) :
    readDigits base limit start (digit :: rest) =
      if limit ≤ start * base + value then .error .tooLarge
      else readDigits base limit (start * base + value) rest := by
  obtain ⟨hValue, hBelow⟩ := (isDigit_iff hBase digit value).mp hDigit
  rw [readDigits, hValue]
  exact if_neg (by omega)

/-- Of digits alone nothing but their number matters. The limit is looked at after every digit, but
a number does not get less by the digits behind it. -/
theorem readDigits_from (hBase : base ≤ 16) {text : List Char} {values : List Nat}
    (hValues : List.Forall₂ (IsDigit base) text values) {start : Nat} (hStart : start < limit) :
    readDigits base limit start text =
      if Nat.ofDigits base (values.reverse ++ [start]) < limit
      then .ok (Nat.ofDigits base (values.reverse ++ [start])) else .error .tooLarge := by
  induction hValues generalizing start with
  | nil =>
      rw [List.reverse_nil, List.nil_append, Nat.ofDigits_singleton, if_pos hStart, readDigits]
  | @cons digit value text values hDigit _ ih =>
      have hPositive : 0 < base := Nat.zero_lt_of_lt hDigit.below
      rw [readDigits_cons hBase hDigit, ofDigits_snoc]
      split
      case isTrue hLarge =>
          have hLarger := le_ofDigits_snoc hPositive values.reverse (start * base + value)
          rw [if_neg (by omega)]
      case isFalse hLess => exact ih (by omega)

/-- What was read was digits throughout. -/
theorem forall_digit_of_readDigits (hBase : base ≤ 16) {text : List Char} {start value : Nat}
    (h : readDigits base limit start text = .ok value) :
    ∃ values, List.Forall₂ (IsDigit base) text values := by
  fun_induction readDigits base limit start text with
  | case1 start => exact ⟨[], .nil⟩
  | case2 => cases h
  | case3 => cases h
  | case4 => cases h
  | case5 start digit rest first hFirst hOver hLarge ih =>
      obtain ⟨values, hValues⟩ := ih h
      have hDigit : IsDigit base digit first :=
        (isDigit_iff hBase digit first).mpr ⟨hFirst, by omega⟩
      exact ⟨first :: values, .cons hDigit hValues⟩

/-- Digits are faulty if one is none or if they come to too much. -/
theorem fault_of_readDigits {text : List Char} {start : Nat} {fault : NumberFault}
    (h : readDigits base limit start text = .error fault) :
    fault = .invalidDigit ∨ fault = .tooLarge := by
  fun_induction readDigits base limit start text with
  | case1 => cases h
  | case2 => exact .inl (Except.error.inj h).symm
  | case3 => exact .inl (Except.error.inj h).symm
  | case4 => exact .inr (Except.error.inj h).symm
  | case5 _ _ _ _ _ _ _ ih => exact ih h

/-- Digits are read as their value if it is small enough. -/
theorem readDigits_of_digits (hBase : base ≤ 16) (hLimit : 0 < limit) {text : List Char}
    {value : Nat} (h : Digits base text value) :
    readDigits base limit 0 text = if value < limit then .ok value else .error .tooLarge := by
  obtain ⟨values, hValues, rfl⟩ := h
  rw [readDigits_from hBase hValues hLimit, Nat.ofDigits_append_zero]

/-- What was read is the value of the digits. -/
theorem digits_of_readDigits (hBase : base ≤ 16) (hLimit : 0 < limit) {text : List Char}
    {value : Nat} (h : readDigits base limit 0 text = .ok value) : Digits base text value := by
  obtain ⟨values, hValues⟩ := forall_digit_of_readDigits hBase h
  refine ⟨values, hValues, ?_⟩
  rw [readDigits_from hBase hValues hLimit, Nat.ofDigits_append_zero] at h
  split_ifs at h
  exact (Except.ok.inj h).symm

theorem readUnsigned_bare {first : Char} (hFirst : first ≠ '+') (rest : List Char) :
    readUnsigned base limit (first :: rest) = readDigits base limit 0 (first :: rest) := by
  unfold readUnsigned
  split <;> simp_all

theorem readUnsigned_plus {digits : List Char} (h : digits ≠ []) :
    readUnsigned base limit ('+' :: digits) = readDigits base limit 0 digits := by
  unfold readUnsigned
  split <;> simp_all

theorem IsDigit.ne_plus (hBase : base ≤ 16) {digit : Char} {value : Nat}
    (h : IsDigit base digit value) : digit ≠ '+' := by
  rintro rfl
  have hNone : digitValue '+' = none := by decide
  cases hNone.symm.trans ((isDigit_iff hBase _ value).mp h).1

/-- A plus sign in front changes nothing. -/
theorem readUnsigned_of_unsigned (hBase : base ≤ 16) (hLimit : 0 < limit) {text : List Char}
    {value : Nat} (h : Unsigned base text value) :
    readUnsigned base limit text = if value < limit then .ok value else .error .tooLarge := by
  cases h with
  | bare hSome hMade =>
      obtain ⟨first, rest, rfl⟩ := List.exists_cons_of_ne_nil hSome
      obtain ⟨_, hFirst⟩ := hMade.digit_of_mem (List.mem_cons_self ..)
      rw [readUnsigned_bare (hFirst.ne_plus hBase)]
      exact readDigits_of_digits hBase hLimit hMade
  | plus hSome hMade =>
      rw [readUnsigned_plus hSome]
      exact readDigits_of_digits hBase hLimit hMade

/-- What was read is digits, perhaps after a plus sign. -/
theorem unsigned_of_readUnsigned (hBase : base ≤ 16) (hLimit : 0 < limit) {text : List Char}
    {value : Nat} (h : readUnsigned base limit text = .ok value) : Unsigned base text value := by
  unfold readUnsigned at h
  split at h
  case h_1 => cases h
  case h_2 => cases h
  case h_3 digits hSome => exact .plus (by simpa using hSome) (digits_of_readDigits hBase hLimit h)
  case h_4 hSome _ _ => exact .bare (by simpa using hSome) (digits_of_readDigits hBase hLimit h)

theorem fault_of_readUnsigned {text : List Char} {fault : NumberFault}
    (h : readUnsigned base limit text = .error fault) :
    fault = .empty ∨ fault = .invalidDigit ∨ fault = .tooLarge := by
  unfold readUnsigned at h
  split at h
  case h_1 => exact .inl (Except.error.inj h).symm
  case h_2 => exact .inr (.inl (Except.error.inj h).symm)
  case h_3 => exact .inr (fault_of_readDigits h)
  case h_4 => exact .inr (fault_of_readDigits h)

/-- Digits make one number only, since all of them are read as one below a limit that is high
enough. -/
theorem Unsigned.value_unique (hBase : base ≤ 16) {text : List Char} {first second : Nat}
    (hFirst : Unsigned base text first) (hSecond : Unsigned base text second) :
    first = second := by
  have hRead : ∀ {value}, Unsigned base text value → value ≤ first + second →
      readUnsigned base (first + second + 1) text = .ok value := by
    intro value hValue hLess
    rw [readUnsigned_of_unsigned hBase (Nat.succ_pos _) hValue, if_pos (by omega)]
  exact Except.ok.inj ((hRead hFirst (by omega)).symm.trans (hRead hSecond (by omega)))

end Reading

/-- A number in decimal does not look like one behind a prefix. -/
theorem Unsigned.letter_not_mem {text : List Char} {value : Nat} (h : Unsigned 10 text value)
    {letter : Char} (hLetter : letter = 'x' ∨ letter = 'X') : letter ∉ text := by
  have hNone : ¬∃ value, IsDigit 10 letter value := by
    have hValue : digitValue letter = some 33 := by rcases hLetter with rfl | rfl <;> decide
    rintro ⟨value, hDigit⟩
    obtain ⟨hSame, hBelow⟩ := (isDigit_iff (by decide) letter value).mp hDigit
    cases hValue.symm.trans hSame
    omega
  cases h with
  | bare _ hMade => exact fun hMem => hNone (hMade.digit_of_mem hMem)
  | plus _ hMade =>
      intro hMem
      rcases List.mem_cons.mp hMem with rfl | hRest
      · revert hLetter
        decide
      · exact hNone (hMade.digit_of_mem hRest)

/-- No text stands for two numbers. -/
theorem Numeral.value_unique {text : List Char} {first second : Nat} (hFirst : Numeral text first)
    (hSecond : Numeral text second) : first = second := by
  cases hFirst with
  | decimal hFirst =>
      cases hSecond with
      | decimal hSecond => exact hFirst.value_unique (by decide) hSecond
      | hexadecimal hLetter _ => exact absurd (by simp) (hFirst.letter_not_mem hLetter)
  | hexadecimal hLetter hFirst =>
      cases hSecond with
      | decimal hSecond => exact absurd (by simp) (hSecond.letter_not_mem hLetter)
      | hexadecimal _ hSecond => exact hFirst.value_unique (by decide) hSecond

theorem readWide_of_unsigned {text : List Char} {value : Nat} (h : Unsigned 10 text value) :
    readWide text = readUnsigned 10 UInt64.size text := by
  unfold readWide
  split
  case h_1 => exact absurd (by simp) (h.letter_not_mem (.inl rfl))
  case h_2 => exact absurd (by simp) (h.letter_not_mem (.inr rfl))
  case h_3 => rfl

/-- What begins with a zero and this letter is hexadecimal. -/
theorem readWide_of_letter {letter : Char} (hLetter : letter = 'x' ∨ letter = 'X')
    (text : List Char) :
    readWide ('0' :: letter :: text) = readUnsigned 16 UInt64.size text := by
  rcases hLetter with rfl | rfl <;> rfl

/-- A numeral is read as its value if that fits 64 bits. -/
theorem readWide_of_numeral {text : List Char} {value : Nat} (h : Numeral text value) :
    readWide text = if value < 2 ^ 64 then .ok value else .error .tooLarge := by
  have hLimit : 0 < UInt64.size := by decide
  cases h with
  | decimal hNumber =>
      rw [readWide_of_unsigned hNumber]
      exact readUnsigned_of_unsigned (by decide) hLimit hNumber
  | hexadecimal hLetter hNumber =>
      rw [readWide_of_letter hLetter]
      exact readUnsigned_of_unsigned (by decide) hLimit hNumber

/-- What was read is the value of a numeral. -/
theorem numeral_of_readWide {text : List Char} {value : Nat} (h : readWide text = .ok value) :
    Numeral text value := by
  have hLimit : 0 < UInt64.size := by decide
  unfold readWide at h
  split at h
  case h_1 => exact .hexadecimal (.inl rfl) (unsigned_of_readUnsigned (by decide) hLimit h)
  case h_2 => exact .hexadecimal (.inr rfl) (unsigned_of_readUnsigned (by decide) hLimit h)
  case h_3 => exact .decimal (unsigned_of_readUnsigned (by decide) hLimit h)

theorem fault_of_readWide {text : List Char} {fault : NumberFault}
    (h : readWide text = .error fault) :
    fault = .empty ∨ fault = .invalidDigit ∨ fault = .tooLarge := by
  unfold readWide at h
  split at h <;> exact fault_of_readUnsigned h

/-- Of the two limits the one of sixty-four bits comes first. -/
theorem number_of_numeral {text : String} {value : Nat} (h : Numeral text.toList value)
    (bits : Nat) :
    number bits text =
      if value < 2 ^ 64 then if value < 2 ^ bits then .ok value else .error (.outOfRange value)
      else .error .tooLarge := by
  rw [number, readWide_of_numeral h]
  by_cases hWide : value < 2 ^ 64
  · rw [if_pos hWide, if_pos hWide, Nat.one_shiftLeft]
  · rw [if_neg hWide, if_neg hWide]

/-- A text whose fault is that its number is out of range has this number all the same. -/
theorem numeral_of_number {bits : Nat} {text : String} {value : Nat}
    (h : number bits text = .ok value ∨ number bits text = .error (.outOfRange value)) :
    Numeral text.toList value := by
  apply numeral_of_readWide
  rw [number] at h
  cases hRead : readWide text.toList with
  | error fault =>
      rw [hRead] at h
      have hFault : fault = .outOfRange value := by
        rcases h with h | h
        · cases h
        · exact Except.error.inj h
      rcases fault_of_readWide hRead with rfl | rfl | rfl <;> cases hFault
  | ok wide =>
      rw [hRead] at h
      dsimp only at h
      split_ifs at h <;> rcases h with h | h <;> cases h <;> rfl

/-- A number is accepted exactly if it is written as one and fits the type it is for. -/
theorem number_eq_ok_iff (bits : Nat) (text : String) (value : Nat) :
    number bits text = .ok value ↔
      Numeral text.toList value ∧ value < 2 ^ 64 ∧ value < 2 ^ bits := by
  constructor
  · intro h
    have hNumeral := numeral_of_number (.inl h)
    rw [number_of_numeral hNumeral] at h
    split_ifs at h with hWide hFits
    exact ⟨hNumeral, hWide, hFits⟩
  · rintro ⟨hNumeral, hWide, hFits⟩
    rw [number_of_numeral hNumeral, if_pos hWide, if_pos hFits]

/-- A number is out of range exactly if it fits 64 bits but not the type. -/
theorem number_eq_outOfRange_iff (bits : Nat) (text : String) (value : Nat) :
    number bits text = .error (.outOfRange value) ↔
      Numeral text.toList value ∧ value < 2 ^ 64 ∧ 2 ^ bits ≤ value := by
  constructor
  · intro h
    have hNumeral := numeral_of_number (.inr h)
    rw [number_of_numeral hNumeral] at h
    split_ifs at h with hWide hFits
    · exact ⟨hNumeral, hWide, not_lt.mp hFits⟩
    · cases h
  · rintro ⟨hNumeral, hWide, hBeyond⟩
    rw [number_of_numeral hNumeral, if_pos hWide, if_neg (not_lt.mpr hBeyond)]

/-- What is printed in decimal is read back. -/
theorem numeral_toString (value : Nat) : Numeral (toString value).toList value := by
  rw [Nat.toString_eq_ofList_toDigits, String.toList_ofList]
  exact .decimal (.bare Nat.toDigits_ne_nil (digits_toDigits (by decide) value))

theorem numeral_append {digits : String} {value : Nat} (h : Unsigned 16 digits.toList value) :
    Numeral ("0x" ++ digits).toList value := by
  rw [String.toList_append]
  exact .hexadecimal (.inl rfl) h

/-- What is printed in hexadecimal is read back. -/
theorem numeral_short (value : Nat) : Numeral (Hexadecimal.short value).toList value := by
  apply numeral_append
  rw [Hexadecimal.digits, String.toList_ofList]
  exact .bare Nat.toDigits_ne_nil (digits_toDigits (by decide) value)

/-- So is it in capitals. -/
theorem numeral_toUpper (value : Nat) :
    Numeral ("0x" ++ (Hexadecimal.digits value).toUpper).toList value := by
  have hSome : (Nat.toDigits 16 value).map Char.toUpper ≠ [] :=
    List.map_eq_nil_iff.not.mpr Nat.toDigits_ne_nil
  apply numeral_append
  rw [Hexadecimal.digits, String.toUpper, String.toList_map, String.toList_ofList]
  exact .bare hSome ((digits_toDigits (by decide) value).map_toUpper (by decide))

/-- A text has one number at most. It is read as that number of some bits if the number fits into
these bits and into sixty-four; every other text is refused. Of the two limits the one of sixty-four
bits comes first, and a number that only the bits wanted do not hold is named. A number that fits,
which with up to sixty-four bits is every one that the bits hold, comes back from print, in decimal
as in hexadecimal with letters of either case. -/
theorem number_grammar (bits : Nat) (text : String) :
    (∀ first second, Numeral text.toList first → Numeral text.toList second → first = second) ∧
    (∀ value, number bits text = .ok value ↔
      Numeral text.toList value ∧ value < 2 ^ 64 ∧ value < 2 ^ bits) ∧
    ((∃ fault, number bits text = .error fault) ↔
      ¬∃ value, Numeral text.toList value ∧ value < 2 ^ 64 ∧ value < 2 ^ bits) ∧
    (∀ value, number bits text = .error (.outOfRange value) ↔
      Numeral text.toList value ∧ value < 2 ^ 64 ∧ 2 ^ bits ≤ value) ∧
    (∀ value, Numeral text.toList value → 2 ^ 64 ≤ value →
      number bits text = .error .tooLarge) ∧
    ∀ value, value < 2 ^ 64 → value < 2 ^ bits →
      number bits (toString value) = .ok value ∧
      number bits (Hexadecimal.short value) = .ok value ∧
      number bits ("0x" ++ (Hexadecimal.digits value).toUpper) = .ok value := by
  refine ⟨fun _ _ => Numeral.value_unique, number_eq_ok_iff bits text, ?_,
    number_eq_outOfRange_iff bits text, ?_, ?_⟩
  · simp only [← number_eq_ok_iff]
    cases number bits text with
    | ok value => exact ⟨nofun, fun h => absurd ⟨value, rfl⟩ h⟩
    | error fault => exact ⟨nofun, fun _ => ⟨fault, rfl⟩⟩
  · intro value hNumeral hBeyond
    rw [number_of_numeral hNumeral, if_neg (not_lt.mpr hBeyond)]
  · intro value hWide hFits
    have hRead : ∀ {written : String}, Numeral written.toList value →
        number bits written = .ok value :=
      fun hNumeral => (number_eq_ok_iff bits _ value).mpr ⟨hNumeral, hWide, hFits⟩
    exact ⟨hRead (numeral_toString value), hRead (numeral_short value),
      hRead (numeral_toUpper value)⟩

/-- A number with all that may stand in front of its digits, wanted in few bits and in many. -/
theorem number_grammar_mixed :
    (∀ value, Numeral "0X+00beEF".toList value → value = 0xBEEF) ∧
      number 16 "0X+00beEF" = .ok 0xBEEF ∧
      number 8 "0X+00beEF" = .error (.outOfRange 0xBEEF) ∧
      (¬∃ value, Numeral "+0xBEEF".toList value ∧ value < 2 ^ 64 ∧ value < 2 ^ 16) ∧
      number 128 (toString (2 ^ 64)) = .error .tooLarge ∧
      number 16 (toString 0xBEEF) = .ok 0xBEEF ∧
      number 16 (Hexadecimal.short 0xBEEF) = .ok 0xBEEF := by
  have hDigits : Digits 16 ['0', '0', 'b', 'e', 'E', 'F'] 0xBEEF :=
    ⟨[0, 0, 11, 14, 14, 15],
      .cons ⟨by decide, .inl rfl⟩ (.cons ⟨by decide, .inl rfl⟩ (.cons ⟨by decide, .inl rfl⟩
        (.cons ⟨by decide, .inl rfl⟩ (.cons ⟨by decide, .inr rfl⟩
          (.cons ⟨by decide, .inr rfl⟩ .nil))))), by decide⟩
  have hNumeral : Numeral "0X+00beEF".toList 0xBEEF :=
    .hexadecimal (.inr rfl) (.plus nofun hDigits)
  obtain ⟨hUnique, hRead, _, _, _, hPrint⟩ := number_grammar 16 "0X+00beEF"
  obtain ⟨_, _, _, hNarrow, _, _⟩ := number_grammar 8 "0X+00beEF"
  obtain ⟨_, _, hRefused, _, _, _⟩ := number_grammar 16 "+0xBEEF"
  obtain ⟨_, _, _, _, hBeyond, _⟩ := number_grammar 128 (toString (2 ^ 64))
  obtain ⟨hDecimal, hShort, _⟩ := hPrint 0xBEEF (by decide) (by decide)
  exact ⟨fun value hValue => hUnique value _ hValue hNumeral,
    (hRead _).mpr ⟨hNumeral, by decide, by decide⟩,
    (hNarrow _).mpr ⟨hNumeral, by decide, by decide⟩,
    hRefused.mp ⟨.invalidDigit, by decide +kernel⟩,
    hBeyond _ (numeral_toString _) le_rfl, hDecimal, hShort⟩

end Multidrop.Cli
