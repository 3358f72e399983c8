/-!
# Doubles and their exact rounding

A double is a sign and a magnitude. Magnitudes are counted in ascending order: the finite ones,
infinity, and behind it NaN, which so has a sign as every other double. A finite magnitude is a
whole number of units of `2 ^ -1074`. Reading a double as such a count of units, and rounding a
quotient of natural numbers once to the nearest double, are all that literals, printed digits and
arithmetic need. Both directions are integer arithmetic, so nothing rounds on the way.
-/

namespace Reckoner

/-- The natural number nearest to `num / den`; of two equally near the even one. -/
def roundHalfEven (num den : Nat) : Nat :=
  let quotient := num / den
  let twice := 2 * (num % den)
  if den < twice ∨ (twice = den ∧ quotient % 2 = 1) then quotient + 1 else quotient

/-- The number of magnitudes that share an exponent, `2 ^ 52`. -/
def Binary64.fractionCount : Nat := 0x10000000000000

/-- The magnitude of the infinities; smaller ones are finite. -/
def Binary64.infiniteMagnitude : Nat := 2047 * Binary64.fractionCount

/-- The magnitude of NaN. -/
def Binary64.nanMagnitude : Nat := Binary64.infiniteMagnitude + 1

/-- A double. -/
@[ext]
structure Binary64 where
  /-- The sign is set. -/
  negative : Bool
  /-- The place of the double without its sign in the ascending order of magnitudes. -/
  magnitude : Nat
  /-- There is no magnitude behind that of NaN. -/
  bounded : magnitude ≤ Binary64.nanMagnitude
  deriving DecidableEq, Repr

namespace Binary64

/-- The double of a sign and a magnitude; all that lies behind infinity is NaN. -/
def ofMagnitude (sign : Bool) (magnitude : Nat) : Binary64 :=
  ⟨sign, min magnitude nanMagnitude, Nat.min_le_right _ _⟩

/-- A magnitude that occurs is kept. -/
theorem magnitude_ofMagnitude (sign : Bool) {magnitude : Nat} (h : magnitude ≤ nanMagnitude) :
    (ofMagnitude sign magnitude).magnitude = magnitude := Nat.min_eq_left h

/-- The double is neither infinite nor NaN. -/
def isFinite (x : Binary64) : Bool := decide (x.magnitude < infiniteMagnitude)

/-- The double is infinite. -/
def isInf (x : Binary64) : Bool := decide (x.magnitude = infiniteMagnitude)

/-- The double is NaN. -/
def isNaN (x : Binary64) : Bool := decide (x.magnitude = nanMagnitude)

/-- A double is finite if it is neither infinite nor NaN. -/
theorem isFinite_eq_true_iff (x : Binary64) :
    x.isFinite = true ↔ x.isInf = false ∧ x.isNaN = false := by
  have last : nanMagnitude = infiniteMagnitude + 1 := rfl
  have bounded := x.bounded
  simp only [isFinite, isInf, isNaN, decide_eq_true_eq, decide_eq_false_iff_not]
  omega

/-- The double with the other sign. -/
def neg (x : Binary64) : Binary64 := { x with negative := !x.negative }

instance : Neg Binary64 := ⟨neg⟩

/-- Changing the sign twice changes nothing. -/
protected theorem neg_neg (x : Binary64) : -(-x) = x := by
  cases x; simp [Neg.neg, neg]

/-- The double without its sign. -/
def abs (x : Binary64) : Binary64 := { x with negative := false }

/-- The negative of a double if `sign` is set, and the double itself otherwise. -/
def signed (sign : Bool) (x : Binary64) : Binary64 := if sign then -x else x

/-- The magnitude of `x` with the sign of `source`. -/
def copySign (x source : Binary64) : Binary64 := { x with negative := source.negative }

/-- Positive infinity. -/
def infinity : Binary64 := ofMagnitude false infiniteMagnitude

/-- The positive NaN, the value of what has no value. -/
def nan : Binary64 := ofMagnitude false nanMagnitude

/-- The negative NaN, which arithmetic makes of operands that have no result. -/
def invalid : Binary64 := ofMagnitude true nanMagnitude

/-- The number of units of `2 ^ -1074` in a finite magnitude: one whose exponent is zero is that
many units, and every further exponent doubles the unit. -/
def unitsOfMagnitude (magnitude : Nat) : Nat :=
  let exponent := magnitude / fractionCount
  let fraction := magnitude % fractionCount
  if exponent = 0 then fraction else (fractionCount + fraction) * Nat.pow 2 (exponent - 1)

/-- The units of a finite double, whatever its sign. -/
def units (x : Binary64) : Nat := unitsOfMagnitude x.magnitude

/-- The number of units in one. -/
def one : Nat := Nat.pow 2 1074

/-- The magnitude nearest to `num / den` units: a significand of at most 53 bits rounded half to
even, and infinity when the rounded quotient is not finite. -/
def nearestMagnitude (num den : Nat) : Nat :=
  let shift := (num / den).log2 + 1 - 53
  min (shift * fractionCount + roundHalfEven num (den * Nat.pow 2 shift)) infiniteMagnitude

/-- The double of a sign that is nearest to `num / den` units. -/
def ofUnits (sign : Bool) (num den : Nat) : Binary64 :=
  ofMagnitude sign (nearestMagnitude num den)

/-- The double nearest to `num / den`; of two equally near the one of even significand. -/
def nearest (num den : Nat) : Binary64 := ofUnits false (num * one) den

/-- The double of a natural number. -/
instance (n : Nat) : OfNat Binary64 n := ⟨nearest n 1⟩

/-- The double nearest to a decimal fraction. -/
instance : OfScientific Binary64 where
  ofScientific mantissa isNegative exponent :=
    if isNegative then nearest mantissa (Nat.pow 10 exponent)
    else nearest (mantissa * Nat.pow 10 exponent) 1

end Binary64

end Reckoner
