import Reckoner.Binary64.Basic
import Reckoner.Numeral.Radix
/-!
# Decimal numerals

A positive quotient is rounded once, half to even, to a number of significant decimal digits. The
scientific form writes all of them with an exponent. The general form writes the number
positionally while its exponent is small, and leaves out the zeros at the end of the fraction.
-/

namespace Reckoner

/-- A decimal number of known precision: `digits * 10 ^ (exponent + 1 - count)`, where `count` is
the number of decimal digits of `digits`, so `exponent` is that of the leading digit. -/
structure Scientific where
  /-- The significant digits read as one number. -/
  digits : Nat
  /-- The power of ten of the leading digit. -/
  exponent : Int
  deriving DecidableEq, Repr

/-- How often `num` has to be multiplied by ten to reach `den`, at most `limit` times. -/
def tensToReach (num den : Nat) : Nat → Nat
  | 0 => 0
  | limit + 1 => if den ≤ num then 0 else tensToReach (num * 10) den limit + 1

/-- The power of ten of the leading decimal digit of `num / den`. -/
def leadingExponent (num den : Nat) : Int :=
  if den ≤ num then ((Nat.toDigits 10 (num / den)).length : Int) - 1
  else -(tensToReach num den (den.log2 + 1) : Int)

/-- The natural number nearest to `num / den * 10 ^ power`; of two equally near the even one. -/
def roundedTimesTenTo (num den : Nat) (power : Int) : Nat :=
  if 0 ≤ power then roundHalfEven (num * Nat.pow 10 power.toNat) den
  else roundHalfEven num (den * Nat.pow 10 (-power).toNat)

/-- The positive quotient `num / den` rounded to `count` significant digits. Rounding up through
all nines moves the leading digit one place. -/
def Scientific.ofRatio (num den count : Nat) : Scientific :=
  let exponent := leadingExponent num den
  let digits := roundedTimesTenTo num den (count - 1 - exponent)
  if digits = Nat.pow 10 count then ⟨Nat.pow 10 (count - 1), exponent + 1⟩ else ⟨digits, exponent⟩

/-- The exponent mark: the sign is always written and there are at least two digits. -/
def exponentMark (exponent : Int) : List Char :=
  'e' :: (if exponent < 0 then '-' else '+') :: paddedDigits 10 2 exponent.natAbs

/-- A leading digit, the others after a point, and the exponent. -/
def Scientific.expandedText (fraction : List Char → List Char) (number : Scientific) : List Char :=
  match Nat.toDigits 10 number.digits with
  | [] => []
  | leading :: others =>
    withFraction [leading] (fraction others) ++ exponentMark number.exponent

/-- The digits of a number as far as they stand in front of the point or behind it. -/
def Scientific.positionalText (number : Scientific) : List Char :=
  let digits := Nat.toDigits 10 number.digits
  if number.exponent < 0 then
    withFraction ['0']
      (trimZeros (List.replicate (number.exponent.natAbs - 1) '0' ++ digits))
  else
    let whole := number.exponent.toNat + 1
    withFraction (digits.take whole) (trimZeros (digits.drop whole))

/-- The general form of a number of `count` significant digits: positional when the exponent is at
least -4 and below `count`. -/
def Scientific.generalText (count : Nat) (number : Scientific) : List Char :=
  if -4 ≤ number.exponent ∧ number.exponent < count then number.positionalText
  else number.expandedText trimZeros

/-- The general form of a quotient with at most `count` significant digits. -/
def generalDecimal (count num den : Nat) : List Char :=
  if num = 0 then ['0'] else (Scientific.ofRatio num den count).generalText count

/-- The scientific form of a quotient with `places` digits after the point. -/
def scientificDecimal (places num den : Nat) : List Char :=
  if num = 0 then withFraction ['0'] (List.replicate places '0') ++ exponentMark 0
  else (Scientific.ofRatio num den (places + 1)).expandedText id

end Reckoner
