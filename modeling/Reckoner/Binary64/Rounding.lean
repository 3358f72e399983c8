import Reckoner.Binary64.Arithmetic
/-!
# Numbers that rounding keeps

A finite double is a significand of at most 53 bits times a power of two, and every such number of
units within the range is a double. Rounding keeps it. So what only takes bits away from a double is
exact: the part in front of its point, and the quotient of an integer by a power of two.
-/

namespace Reckoner

/-- A multiple of the denominator is not rounded. -/
theorem roundHalfEven_mul (number : Nat) {den : Nat} (positive : 0 < den) :
    roundHalfEven (number * den) den = number := by
  have quotient : number * den / den = number := Nat.mul_div_cancel number positive
  have remainder : number * den % den = 0 := Nat.mul_mod_left number den
  have down : ¬ (den < 2 * 0 ∨ 2 * 0 = den ∧ number % 2 = 1) := by omega
  rw [roundHalfEven, quotient, remainder, if_neg down]

/-- A common factor does not matter to the rounding of a quotient. -/
theorem roundHalfEven_mul_mul (num den : Nat) {factor : Nat} (positive : 0 < factor) :
    roundHalfEven (num * factor) (den * factor) = roundHalfEven num den := by
  have quotient : num * factor / (den * factor) = num / den := Nat.mul_div_mul_right _ _ positive
  have twice : 2 * (num * factor % (den * factor)) = 2 * (num % den) * factor := by
    rw [Nat.mul_mod_mul_right, Nat.mul_assoc]
  simp only [roundHalfEven, quotient, twice, Nat.mul_lt_mul_right positive,
    Nat.mul_left_inj (Nat.ne_of_gt positive)]

/-- Bits behind a number do not move its leading bit further than there are of them. -/
theorem log2_mul_two_pow_add {number : Nat} (nonzero : number ≠ 0) {bits rest : Nat}
    (small : rest < Nat.pow 2 bits) :
    (number * Nat.pow 2 bits + rest).log2 = number.log2 + bits := by
  rw [Nat.pow_eq] at small ⊢
  obtain ⟨low, high⟩ := (Nat.log2_eq_iff nonzero).mp rfl
  have positive : 0 < 2 ^ bits := Nat.two_pow_pos bits
  have least : 2 ^ number.log2 * 2 ^ bits ≤ number * 2 ^ bits := Nat.mul_le_mul_right _ low
  have most : (number + 1) * 2 ^ bits ≤ 2 ^ (number.log2 + 1) * 2 ^ bits :=
    Nat.mul_le_mul_right _ high
  have nonzero : number * 2 ^ bits + rest ≠ 0 := by
    have product : 0 < number * 2 ^ bits := Nat.mul_pos (by omega) positive
    omega
  rw [Nat.log2_eq_iff nonzero, Nat.add_right_comm, Nat.pow_add, Nat.pow_add 2 (number.log2 + 1)]
  rw [Nat.succ_mul] at most
  omega

/-- A power of two moves the leading bit. -/
theorem log2_mul_two_pow {number : Nat} (nonzero : number ≠ 0) (exponent : Nat) :
    (number * Nat.pow 2 exponent).log2 = number.log2 + exponent :=
  log2_mul_two_pow_add nonzero (Nat.two_pow_pos exponent)

/-- The number has at most 53 significant bits. -/
def FitsSignificand (number : Nat) : Prop :=
  ∃ significand exponent, significand < 2 * Binary64.fractionCount ∧
    number = significand * Nat.pow 2 exponent

namespace FitsSignificand

variable {number : Nat}

/-- A number that is small enough is its own significand. -/
theorem of_lt (small : number < 2 * Binary64.fractionCount) : FitsSignificand number :=
  ⟨number, 0, small, (Nat.mul_one number).symm⟩

/-- Bits that are zero may be put behind a number. -/
theorem mul_two_pow (fits : FitsSignificand number) (count : Nat) :
    FitsSignificand (number * Nat.pow 2 count) := by
  obtain ⟨significand, exponent, small, rfl⟩ := fits
  refine ⟨significand, exponent + count, small, ?_⟩
  rw [Nat.mul_assoc]
  exact congrArg _ (Nat.pow_add 2 exponent count).symm

/-- The last bits of a number may be left out. -/
theorem div_two_pow (fits : FitsSignificand number) (count : Nat) :
    FitsSignificand (number / Nat.pow 2 count) := by
  obtain ⟨significand, exponent, small, rfl⟩ := fits
  simp only [Nat.pow_eq]
  rcases Nat.le_total count exponent with fewer | more
  · obtain ⟨rest, rfl⟩ := Nat.exists_eq_add_of_le fewer
    refine ⟨significand, rest, small, ?_⟩
    rw [Nat.pow_add, Nat.mul_left_comm, Nat.mul_div_cancel_left _ (Nat.two_pow_pos count)]
    rfl
  · obtain ⟨rest, rfl⟩ := Nat.exists_eq_add_of_le more
    have cancelled : significand * 2 ^ exponent / 2 ^ (exponent + rest) =
        significand / 2 ^ rest := by
      rw [Nat.pow_add, Nat.mul_comm significand,
        Nat.mul_div_mul_left _ _ (Nat.two_pow_pos exponent)]
    rw [cancelled]
    exact .of_lt (Nat.lt_of_le_of_lt (Nat.div_le_self ..) small)

/-- The first bits of a number may be left out. -/
theorem mod_two_pow (fits : FitsSignificand number) (count : Nat) :
    FitsSignificand (number % Nat.pow 2 count) := by
  obtain ⟨significand, exponent, small, rfl⟩ := fits
  simp only [Nat.pow_eq]
  rcases Nat.le_total count exponent with fewer | more
  · have noRest : significand * 2 ^ exponent % 2 ^ count = 0 :=
      Nat.mod_eq_zero_of_dvd (Nat.dvd_mul_left_of_dvd (Nat.pow_dvd_pow 2 fewer) significand)
    rw [noRest]
    exact .of_lt (by decide)
  · obtain ⟨rest, rfl⟩ := Nat.exists_eq_add_of_le more
    have left : significand * 2 ^ exponent % 2 ^ (exponent + rest) =
        significand % 2 ^ rest * 2 ^ exponent := by
      rw [Nat.pow_add, Nat.mul_comm (2 ^ exponent), Nat.mul_mod_mul_right]
    have fewer : significand % 2 ^ rest ≤ significand := Nat.mod_le ..
    exact ⟨significand % 2 ^ rest, exponent, by omega, left⟩

/-- The number is a multiple of the unit that it would be rounded to. -/
theorem unit_dvd (fits : FitsSignificand number) : Nat.pow 2 (number.log2 + 1 - 53) ∣ number := by
  obtain ⟨significand, exponent, small, rfl⟩ := fits
  by_cases zero : significand = 0
  · rw [zero, Nat.zero_mul]
    exact Nat.dvd_zero _
  · have bits : significand.log2 < 53 := (Nat.log2_lt zero).mpr small
    have fewer : (significand * Nat.pow 2 exponent).log2 + 1 - 53 ≤ exponent := by
      rw [log2_mul_two_pow zero]
      omega
    exact Nat.dvd_mul_left_of_dvd (Nat.pow_dvd_pow 2 fewer) significand

end FitsSignificand

namespace Binary64

/-- A finite magnitude below the first full significand is its own number of units. -/
theorem unitsOfMagnitude_of_lt {magnitude : Nat} (small : magnitude < fractionCount) :
    unitsOfMagnitude magnitude = magnitude := by
  have exponent : magnitude / fractionCount = 0 := Nat.div_eq_of_lt small
  rw [unitsOfMagnitude, if_pos exponent, Nat.mod_eq_of_lt small]

/-- Behind it, an exponent is a power of two. -/
theorem unitsOfMagnitude_mul_add {fraction : Nat} (small : fraction < fractionCount)
    (exponent : Nat) :
    unitsOfMagnitude ((exponent + 1) * fractionCount + fraction) =
      (fractionCount + fraction) * Nat.pow 2 exponent := by
  have positive : 0 < fractionCount := by decide
  have quotient : ((exponent + 1) * fractionCount + fraction) / fractionCount = exponent + 1 := by
    rw [Nat.mul_comm, Nat.mul_add_div positive, Nat.div_eq_of_lt small, Nat.add_zero]
  have remainder : ((exponent + 1) * fractionCount + fraction) % fractionCount = fraction := by
    rw [Nat.mul_comm, Nat.mul_add_mod, Nat.mod_eq_of_lt small]
  rw [unitsOfMagnitude, quotient, remainder, if_neg (Nat.succ_ne_zero exponent),
    Nat.add_sub_cancel]

/-- A finite magnitude is small or has an exponent. -/
theorem magnitude_cases (magnitude : Nat) : magnitude < fractionCount ∨
    ∃ exponent fraction, fraction < fractionCount ∧
      magnitude = (exponent + 1) * fractionCount + fraction := by
  by_cases small : magnitude < fractionCount
  · exact Or.inl small
  · have positive : 0 < fractionCount := by decide
    have least : 0 < magnitude / fractionCount := Nat.div_pos (Nat.le_of_not_lt small) positive
    obtain ⟨exponent, same⟩ := Nat.exists_eq_succ_of_ne_zero (Nat.ne_of_gt least)
    refine Or.inr ⟨exponent, magnitude % fractionCount, Nat.mod_lt magnitude positive, ?_⟩
    rw [← Nat.succ_eq_add_one, ← same]
    exact (Nat.div_add_mod' magnitude fractionCount).symm

/-- A significand with the exponent that its bits lead to is not rounded. -/
theorem nearestMagnitude_mul {significand exponent : Nat}
    (shift : (significand * Nat.pow 2 exponent).log2 + 1 - 53 = exponent) :
    nearestMagnitude (significand * Nat.pow 2 exponent) 1 =
      min (exponent * fractionCount + significand) infiniteMagnitude := by
  have rounded := roundHalfEven_mul significand (Nat.two_pow_pos exponent)
  rw [← Nat.pow_eq] at rounded
  simp only [nearestMagnitude, Nat.div_one, shift, Nat.one_mul, rounded]

/-- A finite magnitude is the nearest one to its units. -/
theorem nearestMagnitude_unitsOfMagnitude {magnitude : Nat}
    (finite : magnitude < infiniteMagnitude) :
    nearestMagnitude (unitsOfMagnitude magnitude) 1 = magnitude := by
  have capped : min magnitude infiniteMagnitude = magnitude := Nat.min_eq_left (Nat.le_of_lt finite)
  rcases magnitude_cases magnitude with small | ⟨exponent, fraction, small, rfl⟩
  · have shift : (magnitude * Nat.pow 2 0).log2 + 1 - 53 = 0 := by
      rw [Nat.pow_eq, Nat.pow_zero, Nat.mul_one]
      by_cases zero : magnitude = 0
      · rw [zero]
        decide
      · have bits : magnitude.log2 < 52 := (Nat.log2_lt zero).mpr small
        omega
    have nearest := nearestMagnitude_mul shift
    rw [Nat.pow_eq, Nat.pow_zero, Nat.mul_one, Nat.zero_mul, Nat.zero_add, capped] at nearest
    rw [unitsOfMagnitude_of_lt small, nearest]
  · have full : fractionCount + fraction ≠ 0 := by
      have positive : 0 < fractionCount := by decide
      omega
    have leading : (fractionCount + fraction).log2 = 52 := by
      have count : fractionCount = 2 ^ 52 := rfl
      rw [Nat.log2_eq_iff full]
      omega
    have shift : ((fractionCount + fraction) * Nat.pow 2 exponent).log2 + 1 - 53 = exponent := by
      rw [log2_mul_two_pow full, leading]
      omega
    have place : exponent * fractionCount + (fractionCount + fraction) =
        (exponent + 1) * fractionCount + fraction := by
      rw [Nat.succ_mul, Nat.add_assoc]
    rw [unitsOfMagnitude_mul_add small, nearestMagnitude_mul shift, place, capped]

/-- A quotient without remainder is rounded as the number that it is. -/
theorem ofUnits_mul (sign : Bool) (number : Nat) {den : Nat} (positive : 0 < den) :
    ofUnits sign (number * den) den = ofUnits sign number 1 := by
  have scaled (unit : Nat) : roundHalfEven (number * den) (den * unit) =
      roundHalfEven number unit := by
    rw [Nat.mul_comm den]
    exact roundHalfEven_mul_mul number unit positive
  simp only [ofUnits, nearestMagnitude, Nat.mul_div_cancel _ positive, Nat.div_one, scaled,
    Nat.one_mul]

/-- The units of a double have at most 53 significant bits. -/
theorem fitsSignificand_units (x : Binary64) : FitsSignificand x.units := by
  have count : fractionCount = 2 ^ 52 := rfl
  rcases magnitude_cases x.magnitude with small | ⟨exponent, fraction, small, same⟩
  · rw [units, unitsOfMagnitude_of_lt small]
    exact .of_lt (by omega)
  · rw [units, same, unitsOfMagnitude_mul_add small]
    exact ⟨fractionCount + fraction, exponent, by omega, rfl⟩

/-- A finite double with a sign is the nearest one of that sign to its units. -/
theorem ofUnits_units {x : Binary64} (finite : x.isFinite = true) (sign : Bool) :
    ofUnits sign x.units 1 = { x with negative := sign } := by
  have below : x.magnitude < infiniteMagnitude := of_decide_eq_true finite
  ext
  · rfl
  · show min (nearestMagnitude x.units 1) nanMagnitude = x.magnitude
    rw [units, nearestMagnitude_unitsOfMagnitude below]
    exact Nat.min_eq_left x.bounded

/-- A finite double is the nearest one to its units. -/
theorem ofUnits_negative_units {x : Binary64} (finite : x.isFinite = true) :
    ofUnits x.negative x.units 1 = x := ofUnits_units finite x.negative

/-- A finite double without units is zero. -/
theorem magnitude_eq_zero {x : Binary64} (finite : x.isFinite = true) (noUnits : x.units = 0) :
    x.magnitude = 0 := by
  have below : x.magnitude < infiniteMagnitude := of_decide_eq_true finite
  rw [← nearestMagnitude_unitsOfMagnitude below, ← units, noUnits]
  decide

/-- The units of a finite double have fewer bits than infinity would have. -/
theorem log2_units_lt {x : Binary64} (finite : x.isFinite = true) : x.units.log2 < 2098 := by
  have below : x.magnitude < infiniteMagnitude := of_decide_eq_true finite
  have count : fractionCount = 2 ^ 52 := rfl
  have limit : infiniteMagnitude = 2047 * fractionCount := rfl
  rcases magnitude_cases x.magnitude with small | ⟨exponent, fraction, small, same⟩
  · rw [units, unitsOfMagnitude_of_lt small]
    by_cases zero : x.magnitude = 0
    · rw [zero]
      decide
    · have bits : x.magnitude.log2 < 52 := (Nat.log2_lt zero).mpr small
      omega
  · have full : fractionCount + fraction ≠ 0 := by omega
    have leading : (fractionCount + fraction).log2 < 53 := by
      rw [Nat.log2_lt full]
      omega
    rw [same, limit, count] at below
    rw [units, same, unitsOfMagnitude_mul_add small, log2_mul_two_pow full]
    omega

/-- A number with few significant bits is the units of a finite magnitude if it is small enough. -/
theorem exists_magnitude {number : Nat} (fits : FitsSignificand number)
    (bounded : number.log2 < 2098) :
    ∃ magnitude, magnitude < infiniteMagnitude ∧ unitsOfMagnitude magnitude = number := by
  have count : fractionCount = 2 ^ 52 := rfl
  have limit : infiniteMagnitude = 2047 * fractionCount := rfl
  by_cases small : number < fractionCount
  · exact ⟨number, by omega, unitsOfMagnitude_of_lt small⟩
  · have nonzero : number ≠ 0 := by omega
    have leading : 52 ≤ number.log2 := by
      rw [Nat.le_log2 nonzero]
      omega
    obtain ⟨exponent, bits⟩ := Nat.exists_eq_add_of_le leading
    obtain ⟨significand, same⟩ := fits.unit_dvd
    have shift : number.log2 + 1 - 53 = exponent := by omega
    rw [shift, Nat.pow_eq, Nat.mul_comm] at same
    have positive : 0 < 2 ^ exponent := Nat.two_pow_pos exponent
    obtain ⟨low, high⟩ := (Nat.log2_eq_iff nonzero).mp bits
    have least : 2 ^ 52 ≤ significand := by
      rw [same, Nat.pow_add] at low
      exact Nat.le_of_mul_le_mul_right low positive
    have most : significand < 2 ^ 53 := by
      rw [same, Nat.add_right_comm, Nat.pow_add] at high
      exact Nat.lt_of_mul_lt_mul_right high
    have fraction : significand - fractionCount < fractionCount := by omega
    have below : (exponent + 1) * fractionCount + (significand - fractionCount) <
        infiniteMagnitude := by
      rw [limit, count]
      omega
    refine ⟨_, below, ?_⟩
    rw [unitsOfMagnitude_mul_add fraction, Nat.add_sub_of_le (by omega), same]
    rfl

/-- A number with few significant bits is the units of the nearest double if it is small enough. -/
theorem units_ofUnits {number : Nat} (fits : FitsSignificand number)
    (bounded : number.log2 < 2098) (sign : Bool) :
    (ofUnits sign number 1).isFinite = true ∧ (ofUnits sign number 1).units = number := by
  obtain ⟨magnitude, below, same⟩ := exists_magnitude fits bounded
  have place : (ofUnits sign number 1).magnitude = magnitude := by
    have occurs : magnitude ≤ nanMagnitude := Nat.le_succ_of_le (Nat.le_of_lt below)
    rw [ofUnits, ← same, nearestMagnitude_unitsOfMagnitude below, magnitude_ofMagnitude sign occurs]
  constructor
  · rw [isFinite, place]
    exact decide_eq_true below
  · rw [units, place, same]

end Binary64

end Reckoner
