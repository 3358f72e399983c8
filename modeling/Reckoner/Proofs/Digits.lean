import Mathlib.Algebra.Order.Floor.Semifield
import Mathlib.Data.List.DropRight
import Mathlib.Data.Rat.Floor
import Reckoner.Proofs.Numerals
/-!
# Digits of doubles

In the bases two, eight and sixteen a finite double is written with its exact digits: the numeral of
the integer in front of the point, and behind it the fraction, cut off after as many places as the
precision says and without zeros at its end. No step of the two digit loops rounds. A double is a
multiple of a power of two, so a shift by one place moves its bits, and taking away the integer in
front of the point leaves the last bits as they are.
-/

namespace Reckoner

/-- The zeros that are left out stand behind what is kept, which does not end with a zero. -/
theorem exists_trimZeros (digits : List Char) :
    (∃ count, digits = trimZeros digits ++ List.replicate count '0') ∧
      (trimZeros digits).getLast? ≠ some '0' := by
  have same : trimZeros digits = digits.rdropWhile (· == '0') := rfl
  have zeros : digits.rtakeWhile (· == '0') =
      List.replicate (digits.rtakeWhile (· == '0')).length '0' := by
    rw [List.eq_replicate_iff]
    exact ⟨rfl, fun c member => eq_of_beq (List.mem_rtakeWhile_imp (p := (· == '0')) member)⟩
  refine ⟨⟨(digits.rtakeWhile (· == '0')).length, ?_⟩, fun last => ?_⟩
  · rw [same, ← zeros, List.rdropWhile_append_rtakeWhile]
  · rw [same] at last
    have nonempty : digits.rdropWhile (· == '0') ≠ [] := by
      intro empty
      rw [empty] at last
      contradiction
    have other := List.rdropWhile_last_not (· == '0') digits nonempty
    rw [List.getLast?_eq_some_getLast nonempty, Option.some.injEq] at last
    rw [last] at other
    exact other rfl

namespace Binary64

variable {x : Binary64}

/-- The exact value of a finite double. -/
def toRat (x : Binary64) : ℚ := (if x.negative then -1 else 1) * (x.units / one)

/-- The absolute value is the number of units. -/
theorem abs_toRat (x : Binary64) : |x.toRat| = x.units / one := by
  have positive : (0 : ℚ) ≤ x.units / one := div_nonneg (Nat.cast_nonneg _) (Nat.cast_nonneg _)
  have sign : |(if x.negative then -1 else 1 : ℚ)| = 1 := by
    split <;> simp
  rw [toRat, abs_mul, sign, one_mul, abs_of_nonneg positive]

/-- A double is below zero if it has a sign and units. -/
theorem toRat_neg_iff (x : Binary64) : x.toRat < 0 ↔ x.negative = true ∧ x.units ≠ 0 := by
  have unit : (0 : ℚ) < one := by exact_mod_cast one_pos
  have quotient : (0 : ℚ) ≤ x.units / one := div_nonneg (Nat.cast_nonneg _) unit.le
  have positive : (0 : ℚ) < x.units / one ↔ x.units ≠ 0 := by
    rw [div_pos_iff_of_pos_right unit, Nat.cast_pos, Nat.pos_iff_ne_zero]
  cases sign : x.negative with
  | false =>
    rw [toRat, sign, if_neg Bool.false_ne_true, one_mul]
    exact iff_of_false (not_lt.mpr quotient) fun below => Bool.false_ne_true below.1
  | true =>
    rw [toRat, if_pos sign, neg_one_mul, neg_lt_zero, positive, eq_self, true_and]

/-- The double is a fraction: it is not negative and below one. -/
structure IsFraction (x : Binary64) : Prop where
  /-- It is finite. -/
  finite : x.isFinite = true
  /-- Its sign is not set. -/
  positive : x.negative = false
  /-- It is below one. -/
  small : x.units < one

/-- The integer in front of the point is taken away from the units before they are rounded. -/
theorem sub_floor_eq (finite : x.isFinite = true) (positive : x.negative = false) :
    x - x.floor = ofUnits false (x.units % one) 1 := by
  obtain ⟨natural, ones⟩ := isNatural_floor finite positive
  have floor : x.floor.units = x.units / one * one := by
    rw [← Nat.div_mul_cancel natural.integer.2]
    exact congrArg (· * one) ones
  have split := Nat.div_add_mod' x.units one
  have rest : x.units - x.floor.units = x.units % one := by omega
  have signs : ¬ x.negative = (-x.floor).negative := by
    show ¬ x.negative = !x.floor.negative
    rw [positive, natural.positive]
    decide
  have units : (-x.floor).units = x.floor.units := rfl
  have alsoFinite : (-x.floor).isFinite = true := natural.integer.1
  rw [sub_of_isFinite finite natural.integer.1, add_of_isFinite finite alsoFinite, finiteSum,
    if_neg signs, units, rest, positive]
  by_cases less : x.floor.units < x.units
  · rw [if_pos less]
  · have noRest : x.units % one = 0 := by omega
    have below : ¬ x.units < x.floor.units := by omega
    rw [if_neg less, if_neg below, noRest]
    decide +kernel

/-- What is behind the point of a double is a fraction, and it is split off without rounding. -/
theorem isFraction_sub_floor (finite : x.isFinite = true) (positive : x.negative = false) :
    (x - x.floor).IsFraction ∧ (x - x.floor).units = x.units % one := by
  obtain ⟨bits, power⟩ := exists_one_eq
  have fits : FitsSignificand (x.units % one) := by
    rw [power]
    exact x.fitsSignificand_units.mod_two_pow bits
  have fewer : (x.units % one).log2 < 2098 :=
    log2_lt_of_le (Nat.mod_le ..) (log2_units_lt finite) (by decide)
  obtain ⟨alsoFinite, same⟩ := units_ofUnits fits fewer false
  rw [sub_floor_eq finite positive]
  refine ⟨⟨alsoFinite, rfl, ?_⟩, same⟩
  rw [same]
  exact Nat.mod_lt x.units one_pos

end Binary64

namespace Base

variable (base : Base)

/-- A fraction is shifted by one place without rounding. -/
theorem units_mul_double {fraction : Binary64} (isFraction : fraction.IsFraction) :
    ((fraction * base.double).isFinite = true ∧ (fraction * base.double).negative = false) ∧
      (fraction * base.double).units = fraction.units * base.size := by
  obtain ⟨factor, units, _⟩ := base.double_spec
  obtain ⟨bits, power⟩ := base.exists_size_eq
  have signs : Binary64.signsDiffer fraction base.double = false := by
    rw [Binary64.signsDiffer, isFraction.positive, factor.positive]
    rfl
  have product : fraction * base.double =
      Binary64.ofUnits false (fraction.units * base.size) 1 := by
    rw [Binary64.mul_of_isFinite isFraction.finite factor.integer.1, signs, units,
      ← Nat.mul_assoc, Binary64.ofUnits_mul _ _ Binary64.one_pos]
  have fits : FitsSignificand (fraction.units * base.size) := by
    rw [power]
    exact fraction.fitsSignificand_units.mul_two_pow bits
  have limit : (Binary64.one * 16).log2 < 2098 := by decide +kernel
  have fewer : (fraction.units * base.size).log2 < 2098 :=
    Binary64.log2_lt_of_le (Nat.mul_le_mul (Nat.le_of_lt isFraction.small) base.size_le) limit
      (by decide)
  obtain ⟨finite, same⟩ := Binary64.units_ofUnits fits fewer false
  rw [product]
  exact ⟨⟨finite, rfl⟩, same⟩

/-- One step of the digit loop: no digit is left, or one digit is split off and what is left is a
fraction again. -/
theorem fractionDigits_cases (places : Nat) {fraction : Binary64}
    (isFraction : fraction.IsFraction) :
    (fraction.units = 0 ∧ base.fractionDigits (places + 1) fraction = []) ∨
      ∃ digit next, digit < base.size ∧ next.IsFraction ∧
        fraction.units * base.size = digit * Binary64.one + next.units ∧
        base.fractionDigits (places + 1) fraction =
          digit.digitChar :: base.fractionDigits places next := by
  by_cases zero : (fraction == 0) = true
  · refine Or.inl ⟨(Binary64.beq_zero_iff isFraction.finite).mp zero, ?_⟩
    rw [fractionDigits, if_pos zero]
  · obtain ⟨⟨finite, positive⟩, units⟩ := base.units_mul_double isFraction
    obtain ⟨nextFraction, next⟩ := Binary64.isFraction_sub_floor finite positive
    obtain ⟨_, ones⟩ := Binary64.isNatural_floor finite positive
    refine Or.inr ⟨(fraction * base.double).ones, _, ?_, nextFraction, ?_, ?_⟩
    · rw [Binary64.ones, units, Nat.div_lt_iff_lt_mul Binary64.one_pos, Nat.mul_comm]
      exact Nat.mul_lt_mul_of_pos_left isFraction.small
        (Nat.lt_trans Nat.one_pos base.one_lt_size)
    · rw [next, ← units, Binary64.ones, Nat.div_add_mod']
    · rw [fractionDigits, if_neg zero, ← ones]
      rfl

/-- Digits of a base denote a fraction of some units, cut off after a number of places. -/
structure Approximates (places units : Nat) (digits : List Char) : Prop where
  /-- They are digits of the base. -/
  each : ∀ c ∈ digits, ∃ digit < base.size, c = digit.digitChar
  /-- There are no more of them than places. -/
  short : digits.length ≤ places
  /-- With zeros in all other places they denote the integer in front of the point of the shifted
  fraction. -/
  value : numberOf base.size digits * base.size ^ (places - digits.length) =
    units * base.size ^ places / Binary64.one

/-- The digit loop makes the digits of its fraction. -/
theorem approximates_fractionDigits (places : Nat) {fraction : Binary64}
    (isFraction : fraction.IsFraction) :
    base.Approximates places fraction.units (base.fractionDigits places fraction) := by
  induction places generalizing fraction with
  | zero =>
    have below : fraction.units * base.size ^ 0 / Binary64.one = 0 := by
      rw [Nat.pow_zero, Nat.mul_one, Nat.div_eq_of_lt isFraction.small]
    exact ⟨nofun, Nat.le_refl 0, below.symm⟩
  | succ places ih =>
    rcases base.fractionDigits_cases places isFraction with
      ⟨noPlaces, ends⟩ | ⟨digit, next, small, nextFraction, split, digits⟩
    · rw [ends, noPlaces]
      exact ⟨nofun, Nat.zero_le _, by simp [numberOf]⟩
    · obtain ⟨each, short, value⟩ := ih nextFraction
      have known : (digitValue? digit.digitChar).getD 0 = digit := by
        rw [digitValue?_digitChar (Nat.lt_of_lt_of_le small base.size_le)]
        rfl
      rw [digits]
      refine ⟨List.forall_mem_cons.mpr ⟨⟨digit, small, rfl⟩, each⟩, Nat.succ_le_succ short, ?_⟩
      rw [List.length_cons, Nat.add_sub_add_right, numberOf_cons, known, Nat.add_mul, value,
        Nat.mul_assoc, ← Nat.pow_add, Nat.add_sub_of_le short, Nat.pow_succ',
        ← Nat.mul_assoc fraction.units, split, Nat.add_mul, Nat.mul_right_comm digit,
        Nat.mul_comm _ Binary64.one, Nat.mul_add_div Binary64.one_pos]

/-- Zeros at the end may be left out. -/
theorem Approximates.trimZeros {places units : Nat} {digits : List Char}
    (approximates : base.Approximates places units digits) :
    base.Approximates places units (trimZeros digits) := by
  obtain ⟨each, short, value⟩ := approximates
  obtain ⟨⟨count, same⟩, _⟩ := exists_trimZeros digits
  generalize Reckoner.trimZeros digits = kept at same
  subst same
  rw [List.length_append, List.length_replicate] at short value
  refine ⟨fun c member => each c (List.mem_append_left _ member), by omega, ?_⟩
  have places : places - kept.length = count + (places - (kept.length + count)) := by omega
  rw [← value, numberOf_append, numberOf_replicate_zero, List.length_replicate, Nat.add_zero,
    places, Nat.pow_add, Nat.mul_assoc]

/-- The numeral of the integer in front of the point, and digits that approximate what is behind
it, denote together the integer in front of the point of the shifted number. -/
theorem numberOf_numeral_append {places units : Nat} {fraction : List Char}
    (approximates : base.Approximates places (units % Binary64.one) fraction) :
    numberOf base.size (Nat.toDigits base.size (units / Binary64.one) ++ fraction) *
        base.size ^ (places - fraction.length) = units * base.size ^ places / Binary64.one := by
  obtain ⟨_, short, value⟩ := approximates
  rw [numberOf_append, numberOf_toDigits base.one_lt_size base.size_le, Nat.add_mul, value,
    Nat.mul_assoc, ← Nat.pow_add, Nat.add_sub_of_le short, ← Nat.mul_add_div Binary64.one_pos,
    ← Nat.mul_assoc, ← Nat.add_mul, Nat.div_add_mod]

/-- A value that is not negative is written with its exact digits, cut off after a number of places.
-/
structure Truncates (places : Nat) (value : ℚ) (whole fraction : List Char) : Prop where
  /-- In front of the point stands the numeral of the largest integer that is not above it. -/
  numeral : whole = Nat.toDigits base.size ⌊value⌋₊
  /-- Only the numeral of zero begins with a zero. -/
  leading : whole.head? = some '0' → whole = ['0']
  /-- All digits are digits of the base. -/
  each : ∀ c ∈ whole ++ fraction, ∃ digit < base.size, c = digit.digitChar
  /-- Behind the point there are no more digits than places. -/
  short : fraction.length ≤ places
  /-- The last of them is no zero. -/
  trimmed : fraction.getLast? ≠ some '0'
  /-- The digits denote the largest multiple of the last place that is not above the value. -/
  denotes : (numberOf base.size (whole ++ fraction) : ℚ) / base.size ^ fraction.length =
    ⌊value * base.size ^ places⌋₊ / base.size ^ places

/-- The integer in front of the point of a number of units that is shifted. -/
theorem floor_units_mul (units places : Nat) :
    ⌊(units / Binary64.one : ℚ) * base.size ^ places⌋₊ =
      units * base.size ^ places / Binary64.one := by
  rw [← Nat.floor_div_eq_div (K := ℚ), Nat.cast_mul, Nat.cast_pow, div_mul_eq_mul_div]

/-- Both digit loops together make the exact digits of a double, cut off after the places. -/
theorem truncates_expansion (places : Nat) {x : Binary64} (finite : x.isFinite = true)
    (positive : x.negative = false) :
    ∃ whole fraction, base.expansion places x finite positive = withFraction whole fraction ∧
      base.Truncates places (x.units / Binary64.one) whole fraction := by
  obtain ⟨isFraction, units⟩ := Binary64.isFraction_sub_floor finite positive
  obtain ⟨natural, ones⟩ := Binary64.isNatural_floor finite positive
  have digits := (base.approximates_fractionDigits places isFraction).trimZeros
  rw [units] at digits
  obtain ⟨_, trimmed⟩ := exists_trimZeros (base.fractionDigits places (x - x.floor))
  refine ⟨Nat.toDigits base.size x.ones, _, ?_, ?_, ?_, ?_, digits.short, trimmed, ?_⟩
  · rw [expansion, reverse_wholeDigits, ones]
  · rw [Nat.floor_div_eq_div]
    rfl
  · intro zero
    rw [eq_zero_of_head?_toDigits base.one_lt_size base.size_le x.ones zero, Nat.toDigits_zero]
  · rw [List.forall_mem_append]
    exact ⟨base.exists_digit_of_mem_toDigits x.ones, digits.each⟩
  · have size : (base.size : ℚ) ≠ 0 := by
      exact_mod_cast Nat.ne_of_gt (Nat.lt_trans Nat.one_pos base.one_lt_size)
    have power : (base.size : ℚ) ^ places =
        base.size ^ (trimZeros (base.fractionDigits places (x - x.floor))).length *
          base.size ^ (places - (trimZeros (base.fractionDigits places (x - x.floor))).length) := by
      rw [← pow_add, Nat.add_sub_of_le digits.short]
    rw [base.floor_units_mul, ← base.numberOf_numeral_append digits, power, Nat.cast_mul,
      Nat.cast_pow, mul_div_mul_right _ _ (pow_ne_zero _ size)]
    rfl

end Base

/-- In the bases two, eight and sixteen the text of a finite double is a sign if it is below zero,
the marker of the base, and its exact digits, cut off after the places of the precision. Every digit
that the loop behind the point takes from the table, those that are left out at the end included, is
one of the base. -/
theorem Format.float_truncates (base : Base) (precision : Precision) {x : Binary64}
    (finite : x.isFinite = true) :
    ∃ whole fraction,
      (Format.float ⟨base.radix, precision⟩ x).toList =
        (if x.toRat < 0 then ['-'] else []) ++
          '0' :: base.letter :: withFraction whole fraction ∧
      base.Truncates precision.digits |x.toRat| whole fraction ∧
      ∀ c ∈ base.fractionDigits precision.digits (x.abs - x.abs.floor),
        ∃ digit < base.size, c = digit.digitChar := by
  have alsoFinite : x.abs.isFinite = true := finite
  obtain ⟨whole, fraction, digits, truncates⟩ :=
    base.truncates_expansion precision.digits alsoFinite rfl
  obtain ⟨isFraction, _⟩ := Binary64.isFraction_sub_floor alsoFinite rfl
  refine ⟨whole, fraction, ?_, ?_,
    (base.approximates_fractionDigits precision.digits isFraction).each⟩
  · have magnitude : Format.magnitude ⟨base.radix, precision⟩ x finite =
        '0' :: base.letter :: withFraction whole fraction := by
      rw [← digits]
      cases base <;> rfl
    rw [Format.float_of_isFinite _ finite, String.toList_ofList, Format.finite, magnitude]
    simp only [Binary64.toRat_neg_iff]
    split <;> rfl
  · rw [x.abs_toRat]
    exact truncates

/-- A tenth below zero with three hexadecimal places. -/
theorem Format.float_truncates_tenth :
    (-0.1 : Binary64).isFinite = true ∧
      Format.float ⟨Base.hex.radix, { digits := 3 }⟩ (-0.1) = "-0x0.199" ∧
      ∃ whole fraction,
        "-0x0.199".toList = (if (-0.1 : Binary64).toRat < 0 then ['-'] else []) ++
          '0' :: Base.hex.letter :: withFraction whole fraction ∧
        Base.hex.Truncates 3 |(-0.1 : Binary64).toRat| whole fraction ∧
        ∀ c ∈ Base.hex.fractionDigits 3 ((-0.1 : Binary64).abs - (-0.1 : Binary64).abs.floor),
          ∃ digit < Base.hex.size, c = digit.digitChar := by
  have finite : (-0.1 : Binary64).isFinite = true := by decide +kernel
  have text : Format.float ⟨Base.hex.radix, { digits := 3 }⟩ (-0.1) = "-0x0.199" := by
    decide +kernel
  have truncates := Format.float_truncates .hex { digits := 3 } finite
  rw [text] at truncates
  exact ⟨finite, text, truncates⟩

end Reckoner
