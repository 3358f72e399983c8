import Reckoner.Binary64.Integer
import Reckoner.Numeral.Radix
/-!
# Doubles in the bases two, eight and sixteen

The digits of a double are split off with the operations of doubles, one at a time. In front of the
point the last digit is the remainder of the division by the base, and the rounded down quotient is
what is left. Behind the point the first digit is the integer in front of the point of the fraction
times the base, and what is left is the fraction without it. Digits beyond the precision are cut
off, not rounded.
-/

namespace Reckoner

/-- The digit that a double from zero to fifteen stands for. -/
def Binary64.digitChar (x : Binary64) : Char := x.ones.digitChar

namespace Base

variable (base : Base) {x : Binary64}

/-- An integer without its last digit. -/
def front (x : Binary64) : Binary64 := (x / base.double).floor

/-- The last digit of an integer. -/
def last (x : Binary64) : Binary64 := Binary64.remainder x base.double

/-- The double of a base is the number of its digits. -/
theorem double_eq : base.double = Binary64.nearest base.size 1 :=
  Binary64.ofInt_natCast base.size

/-- The double of a base is a natural number and not zero. -/
theorem double_spec : base.double.IsNatural ∧ base.double.units = base.size * Binary64.one ∧
    (base.double == 0) = false := by
  have exact : Binary64.IsExact base.size := .of_le base.size_le
  obtain ⟨finite, units⟩ := exact.units
  have positive : 0 < base.size * Binary64.one :=
    Nat.mul_pos (Nat.lt_trans Nat.one_pos base.one_lt_size) Binary64.one_pos
  rw [double_eq]
  refine ⟨exact.isNatural.1, units, ?_⟩
  rw [Bool.eq_false_iff, ne_eq, Binary64.beq_zero_iff finite, units]
  exact Nat.ne_of_gt positive

/-- A natural number is divided by the base without rounding. -/
theorem units_div_double (natural : x.IsNatural) :
    ((x / base.double).isFinite = true ∧ (x / base.double).negative = false) ∧
      (x / base.double).units = x.units / base.size := by
  obtain ⟨divisor, units, nonzero⟩ := base.double_spec
  obtain ⟨bits, power⟩ := base.exists_size_eq
  have finite := natural.integer.1
  have signs : Binary64.signsDiffer x base.double = false := by
    rw [Binary64.signsDiffer, natural.positive, divisor.positive]
    rfl
  -- An integer is a multiple of the base in units, because one is.
  have whole : base.size ∣ x.units := by
    have unit : base.size ∣ Binary64.one := by
      cases base <;> decide +kernel
    exact Nat.dvd_trans unit natural.integer.2
  have exact : x.units * Binary64.one = x.units / base.size * (base.size * Binary64.one) := by
    rw [← Nat.mul_assoc, Nat.div_mul_cancel whole]
  have positive : 0 < base.size * Binary64.one :=
    Nat.mul_pos (Nat.lt_trans Nat.one_pos base.one_lt_size) Binary64.one_pos
  have fits : FitsSignificand (x.units / base.size) := by
    rw [power]
    exact x.fitsSignificand_units.div_two_pow bits
  have fewer : (x.units / base.size).log2 < 2098 :=
    Binary64.log2_lt_of_le (Nat.div_le_self ..) (Binary64.log2_units_lt finite) (by decide)
  obtain ⟨alsoFinite, same⟩ := Binary64.units_ofUnits fits fewer false
  rw [Binary64.div_of_isFinite finite divisor.integer.1 nonzero, signs, units, exact,
    Binary64.ofUnits_mul false _ positive]
  exact ⟨⟨alsoFinite, rfl⟩, same⟩

/-- A natural number without its last digit is one. -/
theorem isNatural_front (natural : x.IsNatural) :
    (base.front x).IsNatural ∧ (base.front x).ones = x.ones / base.size := by
  obtain ⟨⟨finite, positive⟩, units⟩ := base.units_div_double natural
  obtain ⟨whole, ones⟩ := Binary64.isNatural_floor finite positive
  refine ⟨whole, ?_⟩
  rw [front, ones, Binary64.ones, units, Binary64.ones, Nat.div_div_eq_div_mul, Nat.mul_comm,
    ← Nat.div_div_eq_div_mul]

/-- As long as digits are left, there are fewer than before. -/
theorem ones_front_lt (natural : x.IsNatural) (more : 1 ≤ base.front x) :
    (base.front x).ones < x.ones := by
  obtain ⟨whole, ones⟩ := base.isNatural_front natural
  have left : 0 < x.ones / base.size := by
    rw [← ones]
    exact whole.one_le_iff.mp more
  have positive : 0 < x.ones := Nat.lt_of_lt_of_le left (Nat.div_le_self ..)
  rw [ones]
  exact Nat.div_lt_self positive base.one_lt_size

/-- The digits of a natural number, the last one first. -/
def wholeDigits (x : Binary64) (natural : x.IsNatural) : List Char :=
  -- A digit is split off before the rest is looked at, so zero has one as well.
  if _ : 1 ≤ base.front x then
    (base.last x).digitChar :: wholeDigits (base.front x) (base.isNatural_front natural).1
  else [(base.last x).digitChar]
termination_by x.ones
decreasing_by exact base.ones_front_lt natural ‹_›

/-- At most `places` digits of a fraction, as many as it has. -/
def fractionDigits : Nat → Binary64 → List Char
  | 0, _ => []
  | places + 1, fraction =>
    if fraction == 0 then []
    else
      let shifted := fraction * base.double
      shifted.floor.digitChar :: fractionDigits places (shifted - shifted.floor)

/-- A double that is not negative in a base, cut off after `places` digits of its fraction. -/
def expansion (places : Nat) (x : Binary64) (finite : x.isFinite = true)
    (positive : x.negative = false) : List Char :=
  let whole := base.wholeDigits x.floor (Binary64.isNatural_floor finite positive).1
  withFraction whole.reverse (trimZeros (base.fractionDigits places (x - x.floor)))

end Base

end Reckoner
