import Mathlib.Algebra.Group.Nat.Defs
import Reckoner.Binary64.Integer
/-!
# Numbers rounded to a significand

The double nearest to a natural number is that of the number rounded to 53 significant bits. Bits
behind a number that reaches `2 ^ 53` move its last place, and they are lost when it is rounded.
Only a tie, a number in the middle between two others with 53 bits, is put above the middle by them.
-/

namespace Reckoner

/-- The place that the last of 53 significant bits has in a number. -/
def lastPlace (number : Nat) : Nat := Nat.pow 2 (number.log2 + 1 - 53)

/-- The number with 53 significant bits that is nearest to a number; of two equally near the one
with an even significand. -/
def rounded (number : Nat) : Nat := roundHalfEven number (lastPlace number) * lastPlace number

/-- A quotient is rounded to one of the two numbers next to it. -/
theorem roundHalfEven_cases (num den : Nat) :
    roundHalfEven num den = num / den ∨ roundHalfEven num den = num / den + 1 := by
  simp only [roundHalfEven]
  split
  · exact Or.inr rfl
  · exact Or.inl rfl

/-- Digits behind a number matter to its rounding only if it lies in the middle between two numbers,
and the even one is below it. They put it above the middle unless they are zero. -/
theorem roundHalfEven_mul_add_eq_iff (num : Nat) {half factor rest : Nat} (positive : 0 < half)
    (small : rest < factor) :
    roundHalfEven (num * factor + rest) (2 * half * factor) = roundHalfEven num (2 * half) ↔
      ¬ (num % (2 * half) = half ∧ num / (2 * half) % 2 = 0 ∧ rest ≠ 0) := by
  have below : num % (2 * half) < 2 * half := Nat.mod_lt num (by omega)
  have enough : (num % (2 * half) + 1) * factor ≤ 2 * half * factor :=
    Nat.mul_le_mul_right factor below
  rw [Nat.succ_mul] at enough
  have parts : num * factor =
      2 * half * factor * (num / (2 * half)) + num % (2 * half) * factor := by
    rw [Nat.mul_right_comm, ← Nat.add_mul, Nat.div_add_mod]
  obtain ⟨quotient, remainder⟩ :=
    (Nat.div_mod_unique (a := num * factor + rest) (b := 2 * half * factor)
      (c := num % (2 * half) * factor + rest) (d := num / (2 * half)) (by omega)).mpr
      ⟨by omega, by omega⟩
  simp only [roundHalfEven, quotient, remainder]
  rcases Nat.lt_trichotomy (num % (2 * half)) half with less | middle | more
  · have space : (num % (2 * half) + 1) * factor ≤ half * factor := Nat.mul_le_mul_right factor less
    rw [Nat.succ_mul] at space
    rw [Nat.mul_assoc, if_neg (by omega), if_neg (by omega)]
    omega
  · rw [middle, Nat.mul_assoc]
    split <;> split <;> omega
  · have space : half * factor < num % (2 * half) * factor :=
      Nat.mul_lt_mul_of_pos_right more (by omega)
    rw [Nat.mul_assoc, if_pos (by omega), if_pos (by omega)]
    omega
/-- The last place of a number that does not reach `2 ^ 53` is one. -/
theorem lastPlace_of_lt {number : Nat} (small : number < 2 ^ 53) : lastPlace number = 1 := by
  have bits : number.log2 + 1 - 53 = 0 := by
    by_cases zero : number = 0
    · rw [zero]
      decide
    · have few : number.log2 < 53 := (Nat.log2_lt zero).mpr small
      omega
  rw [lastPlace, bits]

/-- The last place of a number that reaches `2 ^ 53` is twice another one. -/
theorem exists_lastPlace_eq {number : Nat} (large : 2 ^ 53 ≤ number) :
    ∃ half, 0 < half ∧ lastPlace number = 2 * half := by
  have leading : 53 ≤ number.log2 := (Nat.le_log2 (by omega)).mpr large
  obtain ⟨more, bits⟩ := Nat.exists_eq_add_of_le leading
  have place : number.log2 + 1 - 53 = more + 1 := by omega
  refine ⟨2 ^ more, Nat.two_pow_pos more, ?_⟩
  rw [lastPlace, place, Nat.pow_eq, Nat.pow_succ, Nat.mul_comm]

/-- A number is made of at most 53 bits in front of its last place. -/
theorem div_lastPlace_lt (number : Nat) : number / lastPlace number < 2 ^ 53 := by
  rcases Nat.lt_or_ge number (2 ^ 53) with small | large
  · rw [lastPlace_of_lt small, Nat.div_one]
    exact small
  · have nonzero : number ≠ 0 := by omega
    have leading : 53 ≤ number.log2 := (Nat.le_log2 nonzero).mpr large
    obtain ⟨_, high⟩ := (Nat.log2_eq_iff nonzero).mp rfl
    have place : number.log2 + 1 = 53 + (number.log2 + 1 - 53) := by omega
    rw [place, Nat.pow_add] at high
    exact (Nat.div_lt_iff_lt_mul (Nat.two_pow_pos _)).mpr high

/-- A number that reaches `2 ^ 53` fills the bits in front of its last place. -/
theorem le_div_lastPlace {number : Nat} (large : 2 ^ 53 ≤ number) :
    2 ^ 52 ≤ number / lastPlace number := by
  have nonzero : number ≠ 0 := by omega
  have leading : 53 ≤ number.log2 := (Nat.le_log2 nonzero).mpr large
  obtain ⟨low, _⟩ := (Nat.log2_eq_iff nonzero).mp rfl
  have place : number.log2 = 52 + (number.log2 + 1 - 53) := by omega
  rw [place, Nat.pow_add] at low
  exact (Nat.le_div_iff_mul_le (Nat.two_pow_pos _)).mpr low

/-- A number with 53 significant bits is not rounded. -/
theorem rounded_of_fits {number : Nat} (fits : FitsSignificand number) :
    rounded number = number := by
  obtain ⟨significand, same⟩ := fits.unit_dvd
  have positive : 0 < lastPlace number := Nat.two_pow_pos _
  have split : number = significand * lastPlace number := by
    rw [lastPlace, Nat.mul_comm]
    exact same
  have kept := roundHalfEven_mul significand positive
  rw [← split] at kept
  rw [rounded, kept, ← split]

/-- A rounded number has 53 significant bits. -/
theorem fitsSignificand_rounded (number : Nat) : FitsSignificand (rounded number) := by
  have count : 2 * Binary64.fractionCount = 2 ^ 53 := by decide
  have bits := div_lastPlace_lt number
  have either := roundHalfEven_cases number (lastPlace number)
  by_cases carry : roundHalfEven number (lastPlace number) = 2 ^ 53
  · refine ⟨1, 53 + (number.log2 + 1 - 53), by decide, ?_⟩
    rw [rounded, carry, Nat.one_mul, Nat.pow_eq, Nat.pow_add]
    rfl
  · exact ⟨roundHalfEven number (lastPlace number), number.log2 + 1 - 53, by omega, rfl⟩

/-- Rounding leads at most to the next power of two. -/
theorem rounded_le (number : Nat) : rounded number ≤ 2 ^ (number.log2 + 1) := by
  rcases Nat.lt_or_ge number (2 ^ 53) with small | large
  · rw [rounded_of_fits (.of_lt small)]
    exact Nat.le_of_lt Nat.lt_log2_self
  · have leading : 53 ≤ number.log2 := (Nat.le_log2 (by omega)).mpr large
    have place : number.log2 + 1 = 53 + (number.log2 + 1 - 53) := by omega
    have bits := div_lastPlace_lt number
    have either := roundHalfEven_cases number (lastPlace number)
    rw [place, Nat.pow_add]
    exact Nat.mul_le_mul_right _ (by omega)

/-- The number lies in the middle between two numbers with 53 significant bits, and the even one is
below it. -/
def IsLowerTie (number : Nat) : Prop :=
  2 * (number % lastPlace number) = lastPlace number ∧ number / lastPlace number % 2 = 0

/-- A number in the middle above the even one is rounded down. -/
theorem IsLowerTie.rounded_eq {number : Nat} (tie : IsLowerTie number) :
    rounded number = number / lastPlace number * lastPlace number := by
  have down : ¬ (lastPlace number < 2 * (number % lastPlace number) ∨
      2 * (number % lastPlace number) = lastPlace number ∧ number / lastPlace number % 2 = 1) := by
    have even := tie.2
    have middle := tie.1
    omega
  rw [rounded, roundHalfEven, if_neg down]

/-- A number with 53 significant bits is no tie. -/
theorem FitsSignificand.not_isLowerTie {number : Nat} (fits : FitsSignificand number) :
    ¬ IsLowerTie number := by
  intro tie
  have positive : 0 < lastPlace number := Nat.two_pow_pos _
  have exact : number % lastPlace number = 0 := Nat.mod_eq_zero_of_dvd fits.unit_dvd
  have middle := tie.1
  omega

section

variable {number bits rest : Nat}

/-- Bits behind a number move its last place. -/
theorem lastPlace_mul_add (large : 2 ^ 53 ≤ number) (small : rest < 2 ^ bits) :
    lastPlace (number * 2 ^ bits + rest) = lastPlace number * 2 ^ bits := by
  have nonzero : number ≠ 0 := by omega
  have leading : 53 ≤ number.log2 := (Nat.le_log2 nonzero).mpr large
  have shift : number.log2 + bits + 1 - 53 = number.log2 + 1 - 53 + bits := by omega
  have moved : (number * 2 ^ bits + rest).log2 = number.log2 + bits :=
    log2_mul_two_pow_add nonzero small
  rw [lastPlace, moved, shift]
  exact Nat.pow_add ..

/-- Bits behind a number are lost when it is rounded, unless it is a tie and they are not zero. -/
theorem rounded_mul_add_eq_iff (large : 2 ^ 53 ≤ number) (small : rest < 2 ^ bits) :
    rounded (number * 2 ^ bits + rest) = rounded number * 2 ^ bits ↔
      ¬ (IsLowerTie number ∧ rest ≠ 0) := by
  obtain ⟨half, positive, unit⟩ := exists_lastPlace_eq large
  have places : 0 < 2 * half * 2 ^ bits := Nat.mul_pos (by omega) (Nat.two_pow_pos bits)
  have middle : number % (2 * half) = half ↔ 2 * (number % (2 * half)) = 2 * half := by omega
  rw [rounded, rounded, IsLowerTie, lastPlace_mul_add large small, unit, Nat.mul_assoc _ (2 * half),
    Nat.mul_left_inj (Nat.ne_of_gt places), roundHalfEven_mul_add_eq_iff number positive small,
    middle, and_assoc]

/-- Zeros behind a number are behind its rounded one. -/
theorem rounded_mul_two_pow (large : 2 ^ 53 ≤ number) (bits : Nat) :
    rounded (number * 2 ^ bits) = rounded number * 2 ^ bits :=
  (rounded_mul_add_eq_iff large (Nat.two_pow_pos bits)).mpr fun tie => tie.2 rfl

/-- Bits behind a number that fills 53 significant bits are lost. -/
theorem FitsSignificand.rounded_mul_add (fits : FitsSignificand number) (large : 2 ^ 53 ≤ number)
    (small : rest < 2 ^ bits) : rounded (number * 2 ^ bits + rest) = number * 2 ^ bits := by
  have lost := (rounded_mul_add_eq_iff large small).mpr fun tie => fits.not_isLowerTie tie.1
  rwa [rounded_of_fits fits] at lost

end

/-- Rounding does not lead below `2 ^ 53`. -/
theorem le_rounded {number : Nat} (large : 2 ^ 53 ≤ number) : 2 ^ 53 ≤ rounded number := by
  have bits := le_div_lastPlace large
  have either := roundHalfEven_cases number (lastPlace number)
  obtain ⟨half, positive, unit⟩ := exists_lastPlace_eq large
  calc
    2 ^ 53 = 2 ^ 52 * 2 := rfl
    _ ≤ roundHalfEven number (lastPlace number) * lastPlace number :=
      Nat.mul_le_mul (by omega) (by omega)

namespace Binary64

/-- A significand of 53 bits is kept, and so is one that a carry has led to `2 ^ 53`. -/
theorem nearestMagnitude_mul_of_le {significand : Nat} (low : 2 ^ 52 ≤ significand)
    (high : significand ≤ 2 ^ 53) (exponent : Nat) :
    nearestMagnitude (significand * Nat.pow 2 exponent) 1 =
      min (exponent * fractionCount + significand) infiniteMagnitude := by
  rcases Nat.eq_or_lt_of_le high with rfl | less
  · have count : fractionCount = 2 ^ 52 := rfl
    have carry : 2 ^ 53 * Nat.pow 2 exponent = 2 ^ 52 * Nat.pow 2 (exponent + 1) := by
      rw [Nat.pow_eq, Nat.pow_eq, Nat.pow_succ]
      omega
    have leading : (2 ^ 52).log2 = 52 := Nat.log2_two_pow
    have shift : (2 ^ 52 * Nat.pow 2 (exponent + 1)).log2 + 1 - 53 = exponent + 1 := by
      rw [log2_mul_two_pow (by decide), leading, Nat.add_right_comm]
      exact Nat.add_sub_cancel_left 53 (exponent + 1)
    have place : (exponent + 1) * fractionCount + 2 ^ 52 = exponent * fractionCount + 2 ^ 53 := by
      rw [Nat.succ_mul]
      omega
    rw [carry, nearestMagnitude_mul shift, place]
  · have leading : significand.log2 = 52 := (Nat.log2_eq_iff (by omega)).mpr ⟨low, less⟩
    apply nearestMagnitude_mul
    rw [log2_mul_two_pow (by omega), leading]
    omega

/-- A number and the number it is rounded to have the same nearest double. -/
theorem nearest_rounded (number : Nat) : nearest (rounded number) 1 = nearest number 1 := by
  rcases Nat.lt_or_ge number (2 ^ 53) with small | large
  · rw [rounded_of_fits (.of_lt small)]
  · have nonzero : number ≠ 0 := by omega
    have leading : 53 ≤ number.log2 := (Nat.le_log2 nonzero).mpr large
    obtain ⟨bits, power⟩ := exists_one_eq
    have low := le_div_lastPlace large
    have high := div_lastPlace_lt number
    have either := roundHalfEven_cases number (lastPlace number)
    -- In units the number is rounded at the same place.
    have shift : (number * Nat.pow 2 bits).log2 + 1 - 53 = number.log2 + 1 - 53 + bits := by
      rw [log2_mul_two_pow nonzero]
      omega
    have place : Nat.pow 2 (number.log2 + 1 - 53 + bits) = lastPlace number * Nat.pow 2 bits :=
      Nat.pow_add ..
    have same : rounded number * Nat.pow 2 bits =
        roundHalfEven number (lastPlace number) * Nat.pow 2 (number.log2 + 1 - 53 + bits) := by
      rw [place, rounded, Nat.mul_assoc]
    have scaled : roundHalfEven (number * Nat.pow 2 bits) (lastPlace number * Nat.pow 2 bits) =
        roundHalfEven number (lastPlace number) :=
      roundHalfEven_mul_mul number _ (Nat.two_pow_pos bits)
    have magnitude : nearestMagnitude (rounded number * Nat.pow 2 bits) 1 =
        nearestMagnitude (number * Nat.pow 2 bits) 1 := by
      rw [same, nearestMagnitude_mul_of_le (by omega) (by omega), nearestMagnitude, Nat.div_one,
        shift, place, Nat.one_mul, scaled]
    rw [nearest, nearest, ofUnits, ofUnits, power, magnitude]

/-- In units the leading bit is further to the front. -/
theorem log2_mul_one {number : Nat} (nonzero : number ≠ 0) :
    (number * one).log2 = number.log2 + 1074 := by
  have leading : one.log2 = 1074 := by decide +kernel
  obtain ⟨bits, power⟩ := exists_one_eq
  rw [power] at leading ⊢
  rw [log2_mul_two_pow nonzero, ← leading]
  exact congrArg _ Nat.log2_two_pow.symm

/-- A number below a power of two has its leading bit below that of the power. -/
theorem log2_lt_of_lt_two_pow {number bits : Nat} (positive : 0 < bits)
    (bounded : number < 2 ^ bits) :
    number.log2 < bits := by
  by_cases zero : number = 0
  · rw [zero, Nat.log2_zero]
    exact positive
  · exact (Nat.log2_lt zero).mpr bounded

/-- A rounded number below `2 ^ 1023` is a double. -/
theorem isExact_rounded {number : Nat} (bounded : number < 2 ^ 1023) :
    IsExact (rounded number) := by
  have few := log2_lt_of_lt_two_pow (by decide) bounded
  have limit : (2 ^ (number.log2 + 1) * one).log2 < 2098 := by
    rw [log2_mul_one (Nat.ne_of_gt (Nat.two_pow_pos _)), Nat.log2_two_pow]
    omega
  exact ⟨fitsSignificand_rounded number,
    log2_lt_of_le (Nat.mul_le_mul_right _ (rounded_le number)) limit (by decide)⟩

/-- Numbers that are doubles are the same if their nearest doubles are. -/
theorem IsExact.nearest_inj {first second : Nat} (exact : IsExact first)
    (alsoExact : IsExact second) : nearest first 1 = nearest second 1 ↔ first = second := by
  constructor
  · intro same
    rw [← exact.isNatural.2, same, alsoExact.isNatural.2]
  · exact fun same => congrArg (nearest · 1) same

/-- A number below `2 ^ 1023` with 53 significant bits is a double. -/
theorem IsExact.of_fits {number : Nat} (fits : FitsSignificand number)
    (bounded : number < 2 ^ 1023) : IsExact number := by
  have exact := isExact_rounded bounded
  rwa [rounded_of_fits fits] at exact

/-- A number below `2 ^ 53` is a double. -/
theorem IsExact.of_lt {number : Nat} (small : number < 2 ^ 53) : IsExact number :=
  .of_fits (.of_lt small) (by omega)

end Binary64

end Reckoner
