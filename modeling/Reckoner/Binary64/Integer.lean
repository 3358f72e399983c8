import Reckoner.Binary64.Rounding
/-!
# Integers among the doubles

The largest integer that is not above a double is a double, and it is computed without rounding. The
order of the doubles that are not negative is that of their units.
-/

namespace Reckoner.Binary64

/-- A larger magnitude has more units. -/
theorem unitsOfMagnitude_lt {small large : Nat} (less : small < large) :
    unitsOfMagnitude small < unitsOfMagnitude large := by
  rcases magnitude_cases small with low | ⟨exponent, fraction, low, rfl⟩
  · rcases magnitude_cases large with high | ⟨next, part, high, rfl⟩
    · rwa [unitsOfMagnitude_of_lt low, unitsOfMagnitude_of_lt high]
    · rw [unitsOfMagnitude_of_lt low, unitsOfMagnitude_mul_add high]
      calc
        small < fractionCount := low
        _ ≤ fractionCount + part := Nat.le_add_right ..
        _ ≤ (fractionCount + part) * Nat.pow 2 next :=
          Nat.le_mul_of_pos_right _ (Nat.two_pow_pos next)
  · rcases magnitude_cases large with high | ⟨next, part, high, rfl⟩
    · rw [Nat.succ_mul] at less
      omega
    · rw [unitsOfMagnitude_mul_add low, unitsOfMagnitude_mul_add high]
      have ordered : exponent ≤ next := by
        have bound : exponent * fractionCount < (next + 1) * fractionCount := by
          rw [Nat.succ_mul] at less
          omega
        exact Nat.le_of_lt_succ (Nat.lt_of_mul_lt_mul_right bound)
      rcases Nat.eq_or_lt_of_le ordered with rfl | further
      · exact Nat.mul_lt_mul_of_pos_right (by omega) (Nat.two_pow_pos exponent)
      · calc
          (fractionCount + fraction) * Nat.pow 2 exponent
            < fractionCount * 2 * Nat.pow 2 exponent :=
              Nat.mul_lt_mul_of_pos_right (by omega) (Nat.two_pow_pos exponent)
          _ = fractionCount * Nat.pow 2 (exponent + 1) := by
              rw [Nat.mul_assoc, Nat.mul_comm 2]
              rfl
          _ ≤ fractionCount * Nat.pow 2 next :=
              Nat.mul_le_mul_left _ (Nat.pow_le_pow_right (by decide) further)
          _ ≤ (fractionCount + part) * Nat.pow 2 next :=
              Nat.mul_le_mul_right _ (Nat.le_add_right ..)

/-- Magnitudes are in the order of their units. -/
theorem unitsOfMagnitude_le_iff (first second : Nat) :
    unitsOfMagnitude first ≤ unitsOfMagnitude second ↔ first ≤ second := by
  constructor
  · exact fun ordered => Nat.le_of_not_lt fun less =>
      Nat.not_le_of_lt (unitsOfMagnitude_lt less) ordered
  · intro ordered
    rcases Nat.eq_or_lt_of_le ordered with rfl | less
    · exact Nat.le_refl _
    · exact Nat.le_of_lt (unitsOfMagnitude_lt less)

/-- A finite double is zero if it has no units. -/
theorem beq_zero_iff {x : Binary64} (finite : x.isFinite = true) :
    (x == 0) = true ↔ x.units = 0 := by
  obtain ⟨_, number⟩ := (isFinite_eq_true_iff x).mp finite
  have zero : (0 : Binary64).isNaN = false ∧ (0 : Binary64).place = 0 := by decide +kernel
  have nowhere : x.place = 0 ↔ x.magnitude = 0 := by
    unfold place
    split <;> omega
  have bothZero : x.units = 0 ↔ x.magnitude = 0 :=
    ⟨magnitude_eq_zero finite, fun same => by rw [units, same]; rfl⟩
  show x.same 0 = true ↔ _
  simp only [same, number, zero, Bool.not_false, Bool.true_and, decide_eq_true_eq, nowhere,
    bothZero]

/-- Finite doubles that are not negative are in the order of their units. -/
theorem le_iff_units_le {x y : Binary64} (finite : x.isFinite = true)
    (alsoFinite : y.isFinite = true) (positive : x.negative = false)
    (alsoPositive : y.negative = false) : x ≤ y ↔ x.units ≤ y.units := by
  obtain ⟨_, number⟩ := (isFinite_eq_true_iff x).mp finite
  obtain ⟨_, alsoNumber⟩ := (isFinite_eq_true_iff y).mp alsoFinite
  rw [units, units, unitsOfMagnitude_le_iff]
  show x.atMost y = true ↔ _
  simp [atMost, place, number, alsoNumber, positive, alsoPositive]

/-- The units in one are a power of two. -/
theorem exists_one_eq : ∃ bits, one = Nat.pow 2 bits := by
  unfold one
  exact ⟨_, rfl⟩

/-- One has units. -/
theorem one_pos : 0 < one := by
  obtain ⟨bits, power⟩ := exists_one_eq
  rw [power]
  exact Nat.two_pow_pos bits

/-- The integer in front of the point has no more significant bits than the double. -/
theorem fitsSignificand_ones (x : Binary64) : FitsSignificand x.ones := by
  obtain ⟨bits, power⟩ := exists_one_eq
  rw [ones, power]
  exact (fitsSignificand_units x).div_two_pow bits

/-- The units of as many ones have no more significant bits than their number. -/
theorem fitsSignificand_mul_one {number : Nat} (fits : FitsSignificand number) :
    FitsSignificand (number * one) := by
  obtain ⟨bits, power⟩ := exists_one_eq
  rw [power]
  exact fits.mul_two_pow bits

/-- A smaller number does not have more bits. -/
theorem log2_lt_of_le {small large bound : Nat} (ordered : small ≤ large)
    (bounded : large.log2 < bound) (nonempty : 0 < bound) : small.log2 < bound := by
  by_cases zero : small = 0
  · rw [zero]
    exact nonempty
  · have nonzero : large ≠ 0 := by omega
    rw [Nat.log2_lt zero]
    exact Nat.lt_of_le_of_lt ordered ((Nat.log2_lt nonzero).mp bounded)

/-- The double of a natural number is the nearest one. -/
theorem ofInt_natCast (number : Nat) : ofInt number = nearest number 1 := by
  have positive : ¬ (number : Int) < 0 := Int.not_lt.mpr (Int.natCast_nonneg number)
  rw [ofInt, decide_eq_false positive]
  rfl

/-- The double is an integer: it is finite and a whole number of ones. -/
def IsInteger (x : Binary64) : Prop := x.isFinite = true ∧ one ∣ x.units

instance (x : Binary64) : Decidable x.IsInteger := inferInstanceAs (Decidable (_ ∧ _))

/-- The double nearest to the absolute value of an integer is this value. -/
theorem nearest_ones {x : Binary64} (integer : x.IsInteger) : nearest x.ones 1 = x.abs := by
  rw [nearest, ones, Nat.div_mul_cancel integer.2, ofUnits_units integer.1]
  rfl

/-- The double is a natural number: an integer without a sign. -/
structure IsNatural (x : Binary64) : Prop where
  /-- It is an integer. -/
  integer : x.IsInteger
  /-- Its sign is not set. -/
  positive : x.negative = false

/-- A natural number is at least one unless it has no ones. -/
theorem IsNatural.one_le_iff {x : Binary64} (natural : x.IsNatural) : 1 ≤ x ↔ 0 < x.ones := by
  have unity : (1 : Binary64).isFinite = true ∧ (1 : Binary64).negative = false ∧
      (1 : Binary64).units = one := by
    decide +kernel
  rw [le_iff_units_le unity.1 natural.integer.1 unity.2.1 natural.positive, unity.2.2, ones,
    Nat.div_pos_iff]
  exact ⟨fun enough => ⟨one_pos, enough⟩, And.right⟩

/-- The number is a double. -/
structure IsExact (number : Nat) : Prop where
  /-- It has few significant bits. -/
  fits : FitsSignificand number
  /-- It is below the range that is rounded to infinity. -/
  bounded : (number * one).log2 < 2098

namespace IsExact

variable {number : Nat}

/-- The integer in front of the point of a double is one. -/
theorem of_isFinite {x : Binary64} (finite : x.isFinite = true) : IsExact x.ones :=
  ⟨fitsSignificand_ones x,
    log2_lt_of_le (Nat.div_mul_le_self ..) (log2_units_lt finite) (by decide)⟩

/-- A small number is a double. -/
theorem of_le (small : number ≤ 16) : IsExact number := by
  have limit : (16 * one).log2 < 2098 := by decide +kernel
  refine ⟨.of_lt (Nat.lt_of_le_of_lt small (by decide)), ?_⟩
  exact log2_lt_of_le (Nat.mul_le_mul_right _ small) limit (by decide)

/-- The last bits of a double may be left out. -/
theorem div_two_pow (exact : IsExact number) (count : Nat) : IsExact (number / Nat.pow 2 count) :=
  ⟨exact.fits.div_two_pow count,
    log2_lt_of_le (Nat.mul_le_mul_right _ (Nat.div_le_self ..)) exact.bounded (by decide)⟩

/-- The last bits of a double may be replaced by zeros. -/
theorem div_two_pow_mul (exact : IsExact number) (count : Nat) :
    IsExact (number / Nat.pow 2 count * Nat.pow 2 count) :=
  ⟨(exact.fits.div_two_pow count).mul_two_pow count,
    log2_lt_of_le (Nat.mul_le_mul_right _ (Nat.div_mul_le_self ..)) exact.bounded (by decide)⟩

/-- The nearest double has the units of the number. -/
theorem units (exact : IsExact number) :
    (nearest number 1).isFinite = true ∧ (nearest number 1).units = number * one :=
  units_ofUnits (fitsSignificand_mul_one exact.fits) exact.bounded false

/-- The nearest double is the number. -/
theorem isNatural (exact : IsExact number) :
    (nearest number 1).IsNatural ∧ (nearest number 1).ones = number := by
  obtain ⟨finite, units⟩ := exact.units
  refine ⟨⟨⟨finite, ?_⟩, rfl⟩, ?_⟩
  · rw [units]
    exact Nat.dvd_mul_left ..
  · rw [ones, units, Nat.mul_div_cancel _ one_pos]

/-- The sum of two numbers is rounded once. -/
theorem add {other : Nat} (exact : IsExact number) (alsoExact : IsExact other) :
    nearest number 1 + nearest other 1 = nearest (number + other) 1 := by
  obtain ⟨finite, units⟩ := exact.units
  obtain ⟨alsoFinite, alsoUnits⟩ := alsoExact.units
  have sign (number : Nat) : (nearest number 1).negative = false := rfl
  have signs := (sign number).trans (sign other).symm
  rw [add_of_isFinite finite alsoFinite, finiteSum, if_pos signs, units, alsoUnits, ← Nat.add_mul,
    sign]
  rfl

/-- The product of two numbers is rounded once. -/
theorem mul {other : Nat} (exact : IsExact number) (alsoExact : IsExact other) :
    nearest number 1 * nearest other 1 = nearest (number * other) 1 := by
  obtain ⟨finite, units⟩ := exact.units
  obtain ⟨alsoFinite, alsoUnits⟩ := alsoExact.units
  have product : number * one * (other * one) = number * other * one * one := by
    rw [Nat.mul_right_comm, ← Nat.mul_assoc, Nat.mul_right_comm _ one, Nat.mul_right_comm _ one]
  rw [mul_of_isFinite finite alsoFinite, units, alsoUnits, product, ofUnits_mul _ _ one_pos]
  rfl

end IsExact

/-- The largest integer that is not above a double without a sign is what is in front of the
point. -/
theorem floor_eq_nearest {x : Binary64} (finite : x.isFinite = true)
    (positive : x.negative = false) : x.floor = nearest x.ones 1 := by
  have below : ¬ (false = true ∧ ¬ one ∣ x.units) := fun both => Bool.false_ne_true both.1
  rw [floor, finite, Bool.not_true, if_neg Bool.false_ne_true, positive, if_neg below]
  rfl

/-- The largest integer that is not above a double without a sign is a natural number. -/
theorem isNatural_floor {x : Binary64} (finite : x.isFinite = true)
    (positive : x.negative = false) : x.floor.IsNatural ∧ x.floor.ones = x.ones := by
  rw [floor_eq_nearest finite positive]
  exact (IsExact.of_isFinite finite).isNatural

/-- A natural number is the largest integer that is not above it. -/
theorem IsNatural.floor_eq {x : Binary64} (natural : x.IsNatural) : x.floor = x := by
  rw [floor_eq_nearest natural.integer.1 natural.positive, nearest_ones natural.integer]
  exact Binary64.ext natural.positive.symm rfl

end Reckoner.Binary64
