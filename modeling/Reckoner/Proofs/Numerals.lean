import Mathlib.Algebra.Group.Nat.Defs
import Reckoner.Numeral.Format
import Reckoner.Numeral.Literal
/-!
# Numerals

The digits that a number is written with are read back as the number, in every base up to sixteen.
The digits that are split off a natural number among the doubles, one at a time, are those of its
numeral.
-/

namespace Reckoner

/-- What holds of digits, and of a numeral with a digit behind it if it holds of the numeral, holds
of the numerals of all numbers. -/
theorem numeralInduction {size : Nat} (several : 1 < size) {motive : Nat → List Char → Prop}
    (digit : ∀ number, number < size → motive number [number.digitChar])
    (behind : ∀ number, size ≤ number →
      motive (number / size) (Nat.toDigits size (number / size)) →
      motive number (Nat.toDigits size (number / size) ++ [(number % size).digitChar]))
    (number : Nat) : motive number (Nat.toDigits size number) := by
  induction number using Nat.strongRecOn with
  | ind number ih =>
    by_cases small : number < size
    · rw [Nat.toDigits_of_lt_base small]
      exact digit number small
    · have large : size ≤ number := Nat.le_of_not_lt small
      have positive : 0 < number := by omega
      rw [Nat.toDigits_of_base_le several large]
      exact behind number large (ih _ (Nat.div_lt_self positive several))

/-- A digit up to fifteen has its value. -/
theorem digitValue?_digitChar {digit : Nat} (small : digit < 16) :
    digitValue? digit.digitChar = some digit := by
  have every : ∀ digit < 16, digitValue? digit.digitChar = some digit := by decide
  exact every digit small

/-- A digit in front of other digits is shifted by them. -/
theorem numberOf_cons (size : Nat) (c : Char) (digits : List Char) :
    numberOf size (c :: digits) =
      (digitValue? c).getD 0 * size ^ digits.length + numberOf size digits := by
  have behind (start : Nat) : digits.foldl (fun number c => number * size + (digitValue? c).getD 0)
      start = start * size ^ digits.length + numberOf size digits := by
    unfold numberOf
    induction digits generalizing start with
    | nil => simp
    | cons d rest ih =>
      rw [List.foldl_cons, List.foldl_cons, ih, ih (0 * size + _), List.length_cons, Nat.pow_succ',
        Nat.add_mul, Nat.mul_assoc, Nat.zero_mul, Nat.zero_add, Nat.add_assoc]
  rw [numberOf, List.foldl_cons, behind, Nat.zero_mul, Nat.zero_add]

/-- Digits in front of digits are shifted by them. -/
theorem numberOf_append (size : Nat) (front back : List Char) :
    numberOf size (front ++ back) =
      numberOf size front * size ^ back.length + numberOf size back := by
  induction front with
  | nil => simp [numberOf]
  | cons c rest ih =>
    rw [List.cons_append, numberOf_cons, numberOf_cons, ih, List.length_append, Nat.pow_add,
      Nat.add_mul, Nat.mul_assoc, Nat.add_assoc]

/-- A digit behind digits shifts them by one place. -/
theorem numberOf_concat (size : Nat) (front : List Char) (c : Char) :
    numberOf size (front ++ [c]) = numberOf size front * size + (digitValue? c).getD 0 := by
  rw [numberOf, List.foldl_append]
  rfl

/-- Zeros denote nothing. -/
theorem numberOf_replicate_zero (size count : Nat) :
    numberOf size (List.replicate count '0') = 0 := by
  have zero : (digitValue? '0').getD 0 = 0 := by decide
  induction count with
  | zero => rfl
  | succ count ih => rw [List.replicate_succ, numberOf_cons, ih, zero, Nat.zero_mul]

/-- The numeral of a number denotes it. -/
theorem numberOf_toDigits {size : Nat} (several : 1 < size) (few : size ≤ 16) (number : Nat) :
    numberOf size (Nat.toDigits size number) = number := by
  induction number using numeralInduction several with
  | digit number small =>
    rw [numberOf_cons, digitValue?_digitChar (by omega)]
    simp [numberOf]
  | behind number _ ih =>
    have small : number % size < size := Nat.mod_lt number (by omega)
    rw [numberOf_concat, ih, digitValue?_digitChar (by omega), Option.getD_some,
      Nat.div_add_mod']

/-- The numeral of a number begins with a zero only if the number is zero. -/
theorem eq_zero_of_head?_toDigits {size : Nat} (several : 1 < size) (few : size ≤ 16)
    (number : Nat) : (Nat.toDigits size number).head? = some '0' → number = 0 := by
  have every : ∀ digit < 16, digit.digitChar = '0' → digit = 0 := by decide
  induction number using numeralInduction several with
  | digit number small =>
    intro first
    exact every number (by omega) (Option.some.inj first)
  | behind number large ih =>
    intro first
    have front : (Nat.toDigits size (number / size)).head? = some '0' := by
      cases digits : Nat.toDigits size (number / size) with
      | nil => exact absurd digits Nat.toDigits_ne_nil
      | cons c rest =>
        rw [digits] at first
        exact first
    have noFront : number / size = 0 := ih front
    rw [Nat.div_eq_zero_iff] at noFront
    omega

namespace Base

variable (base : Base)

/-- The form in which numbers are written in a base. -/
def radix : Base → Radix
  | .binary => .binary
  | .octal => .octal
  | .hex => .hex

/-- A letter names the base that it is the letter of. -/
theorem ofLetter?_letter : ofLetter? base.letter = some base := by
  cases base <;> rfl

/-- A numeral consists of digits of its base. -/
theorem exists_digit_of_mem_toDigits (number : Nat) :
    ∀ c ∈ Nat.toDigits base.size number, ∃ digit < base.size, c = digit.digitChar := by
  induction number using numeralInduction base.one_lt_size with
  | digit number small => exact List.forall_mem_singleton.mpr ⟨number, small, rfl⟩
  | behind number _ ih =>
    have small : number % base.size < base.size :=
      Nat.mod_lt number (Nat.lt_trans Nat.one_pos base.one_lt_size)
    rw [List.forall_mem_append]
    exact ⟨ih, List.forall_mem_singleton.mpr ⟨_, small, rfl⟩⟩

/-- A digit of a base is less than the number of its digits. -/
theorem digit_lt {c : Char} (digit : base.isDigit c = true) :
    (digitValue? c).getD 0 < base.size := by
  unfold isDigit at digit
  cases found : digitValue? c with
  | none =>
    rw [found] at digit
    exact absurd digit Bool.false_ne_true
  | some value =>
    rw [found] at digit
    exact of_decide_eq_true digit

/-- As many digits of a base denote less than the power that stands behind them. -/
theorem numberOf_lt {digits : List Char} (each : ∀ c ∈ digits, base.isDigit c = true) :
    numberOf base.size digits < base.size ^ digits.length := by
  induction digits with
  | nil => exact Nat.one_pos
  | cons c rest ih =>
    obtain ⟨first, others⟩ := List.forall_mem_cons.mp each
    have behind := ih others
    have front : ((digitValue? c).getD 0 + 1) * base.size ^ rest.length ≤
        base.size * base.size ^ rest.length :=
      Nat.mul_le_mul_right _ (base.digit_lt first)
    rw [Nat.succ_mul] at front
    rw [numberOf_cons, List.length_cons, Nat.pow_succ']
    omega

/-- A digit is taken up behind a number that is a double with one rounding, that of the sum. -/
theorem nearest_mul_add {number digit : Nat} (exact : Binary64.IsExact number)
    (shifted : Binary64.IsExact (number * base.size)) (small : digit < base.size) :
    Binary64.nearest number 1 * base.double + Binary64.ofInt digit =
      Binary64.nearest (number * base.size + digit) 1 := by
  have size : Binary64.IsExact base.size := .of_le base.size_le
  have behind : Binary64.IsExact digit := .of_le (Nat.le_trans (Nat.le_of_lt small) base.size_le)
  rw [base.double_eq, exact.mul size, Binary64.ofInt_natCast, shifted.add behind]

/-- The value of digits with another one behind them. -/
theorem valueOf_concat (digits : List Char) (c : Char) :
    base.valueOf (digits ++ [c]) =
      base.valueOf digits * base.double + Binary64.ofInt ((digitValue? c).getD 0) := by
  rw [valueOf, List.foldl_append]
  rfl

/-- The last digit of a natural number is the remainder of its ones. -/
theorem ones_last {x : Binary64} (natural : x.IsNatural) :
    (base.last x).ones = x.ones % base.size := by
  obtain ⟨divisor, units, nonzero⟩ := base.double_spec
  have rest : x.units % (base.size * Binary64.one) = x.ones % base.size * Binary64.one := by
    rw [← Nat.mul_mod_mul_right, Binary64.ones, Nat.div_mul_cancel natural.integer.2]
  have remainder : base.last x = Binary64.nearest (x.ones % base.size) 1 := by
    rw [last, Binary64.remainder_of_isFinite natural.integer.1 divisor.integer.1 nonzero, units,
      rest, natural.positive]
    rfl
  have small : x.ones % base.size < base.size :=
    Nat.mod_lt x.ones (Nat.lt_trans Nat.one_pos base.one_lt_size)
  have digit : Binary64.IsExact (x.ones % base.size) :=
    .of_le (Nat.le_trans (Nat.le_of_lt small) base.size_le)
  rw [remainder]
  exact digit.isNatural.2

/-- The digits that are split off a natural number are those of its numeral. -/
theorem reverse_wholeDigits {x : Binary64} (natural : x.IsNatural) :
    (base.wholeDigits x natural).reverse = Nat.toDigits base.size x.ones := by
  fun_induction wholeDigits base x natural with
  | case1 x natural more ih =>
    obtain ⟨whole, ones⟩ := base.isNatural_front natural
    have large : base.size ≤ x.ones := by
      have left := whole.one_le_iff.mp more
      rw [ones] at left
      exact (Nat.div_pos_iff.mp left).2
    rw [List.reverse_cons, ih, ones, Binary64.digitChar, base.ones_last natural,
      ← Nat.toDigits_of_base_le base.one_lt_size large]
  | case2 x natural ends =>
    obtain ⟨whole, ones⟩ := base.isNatural_front natural
    have small : x.ones < base.size := by
      rw [whole.one_le_iff, ones, Nat.div_pos_iff] at ends
      have positive : 0 < base.size := Nat.lt_trans Nat.one_pos base.one_lt_size
      omega
    rw [Binary64.digitChar, base.ones_last natural, Nat.mod_eq_of_lt small,
      Nat.toDigits_of_lt_base small]
    rfl

end Base

end Reckoner
