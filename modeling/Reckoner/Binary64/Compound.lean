import Reckoner.Binary64.Elementary
/-!
# Compound functions of doubles

Sums of squares, logarithms near one and exponentials times a factor, for arguments at which the
plain formula cancels, overflows or underflows. Each one is built so that its result has only the
error of a few roundings.
-/

namespace Reckoner.Binary64

/-- The double `2 ^ power` for a power of at most 1023 in magnitude. -/
def powerOfTwo (power : Int) : Binary64 :=
  if 0 ≤ power then nearest (Nat.pow 2 power.toNat) 1 else nearest 1 (Nat.pow 2 (-power).toNat)

/-- The part `(f / (2 + f)) * (f ^ 2 / 2 + R)` of the logarithm of `1 + f`, which is `f`
less `f ^ 2 / 2` plus that part; `R` is a polynomial in the square of `f / (2 + f)`. -/
def logCorrection (f : Binary64) : Binary64 :=
  let s := f / (2 + f)
  let z := s * s
  let z2 := z * z
  let z4 := z2 * z2
  let r1 := z * 0.6666666666666735
  let r2 := 0.3999999999940942 + z * 0.2857142874366239
  let r3 := 0.22222198432149784 + z * 0.1818357216161805
  let r4 := 0.15313837699209373 + z * 0.14798198605116586
  s * (0.5 * f * f + (r1 + z2 * r2 + z4 * r3 + z4 * z2 * r4))

/-- A double above zero as a power of two and a factor close to one. -/
structure Reduced where
  /-- The power of two. -/
  exponent : Int
  /-- The factor less one; the factor is between the roots of one half and of two. -/
  excess : Binary64
  /-- The excess is below `2 ^ -20` in magnitude. -/
  tiny : Bool

/-- The power of two and the factor of a normal double above zero. -/
def reduced (x : Binary64) : Reduced :=
  let exponent : Int := (x.magnitude / fractionCount : Nat) - 1023
  let fraction := x.magnitude % fractionCount
  let leading := fraction / 0x100000000
  let factor (scale : Nat) := ofMagnitude false (scale * fractionCount + fraction)
  if leading < 0x6a09e then ⟨exponent, factor 1023 - 1, leading == 0⟩
  else ⟨exponent + 1, factor 1022 - 1, 0x100000 - leading < 4⟩

/-- The logarithm of `(1 + excess) * 2 ^ exponent` with a small `rest` added. The logarithm of two
is taken in two parts, of which multiples of the first are exact. -/
def logReduced (number : Reduced) (rest : Binary64) : Binary64 :=
  let f := number.excess
  let k := ofInt number.exponent
  let high : Binary64 := 0.6931471803691238
  let low : Binary64 := 1.9082149292705877e-10
  let half := 0.5 * f * f
  if f == 0 then k * high + (rest + k * low)
  else if number.tiny then
    let square := half * (1 - 0.6666666666666666 * f)
    k * high - ((square - (k * low + rest)) - f)
  else k * high - ((half - (logCorrection f + (k * low + rest))) - f)

/-- The logarithm of `1 + x`. Where the sum loses the end of `x`, the loss relative to the sum is
added to the logarithm of the sum. -/
def log1p (x : Binary64) : Binary64 :=
  if x.isNaN || x.isInf || x ≤ -1 then (1 + x).log
  else if x.abs < powerOfTwo (-54) then x
  else if x.abs < powerOfTwo (-29) then x - x * x * 0.5
  else if -0.29289340972900390 < x && x < 0.41421365737915039 then
    x - (0.5 * x * x - logCorrection x)
  else if powerOfTwo 53 ≤ x then logReduced (reduced x) 0
  else
    let sum := 1 + x
    let lost := if 2 ≤ sum then 1 - (sum - x) else x - (sum - 1)
    logReduced (reduced sum) (lost / sum)

/-- The hypotenuse of sides `0 < short ≤ long` whose squares are normal doubles: one correction
step takes the error of the squares off the square root. -/
def correctedHypotenuse (long short : Binary64) : Binary64 :=
  let rough := (long * long + short * short).sqrt
  let error :=
    if rough ≤ 2 * short then
      let beyond := rough - short
      long * (2 * beyond - long) + (beyond - 2 * (long - short)) * beyond
    else
      let beyond := rough - long
      2 * beyond * (long - 2 * short) + ((4 * beyond - short) * short + beyond * beyond)
  rough - error / (2 * rough)

/-- The square root of `x ^ 2 + y ^ 2`, scaled where the squares would leave the normal range. It is
infinite if a side is, even beside a NaN. -/
def hypot (x y : Binary64) : Binary64 :=
  if x.isInf || y.isInf then infinity
  else if x.isNaN || y.isNaN then nan
  else
    let long := if x.abs < y.abs then y.abs else x.abs
    let short := if x.abs < y.abs then x.abs else y.abs
    let scale := powerOfTwo (-600)
    let negligible := powerOfTwo (-54)
    if powerOfTwo 511 < long then
      if short ≤ long * negligible then long + short
      else correctedHypotenuse (long * scale) (short * scale) / scale
    else if short < powerOfTwo (-459) then
      if short / negligible ≤ long then long + short
      else correctedHypotenuse (long / scale) (short / scale) * scale
    else if short ≤ long * negligible then long + short
    else correctedHypotenuse long short

/-- What the square of a finite double loses when it is rounded. -/
def squareError (x : Binary64) : Binary64 :=
  let exact := x.units * x.units
  let rounded := (x * x).units * one
  if exact < rounded then ofUnits true (rounded - exact) one
  else ofUnits false (exact - rounded) one

/-- Put a double into a list in ascending order of magnitude. -/
def insertByMagnitude (x : Binary64) : List Binary64 → List Binary64
  | [] => [x]
  | y :: ys => if x.magnitude ≤ y.magnitude then x :: y :: ys else y :: insertByMagnitude x ys

/-- The terms of a sum in ascending order of magnitude, after `steps` times the two smallest ones
have been added; what such a sum loses stays as a term of its own in front. -/
def distilled : Nat → List Binary64 → List Binary64
  | steps + 1, x :: y :: terms =>
    let sum := y + x
    (y - sum + x) :: distilled steps (insertByMagnitude sum terms)
  | _, terms => terms

/-- The sum `x ^ 2 + y ^ 2 - 1` for finite `x` and `y`. Its terms are exact and distilled, so that
the large ones cancel before the small ones are added. -/
def squaresMinusOne (x y : Binary64) : Binary64 :=
  let terms := [squareError x, x * x, squareError y, y * y, -1].foldr insertByMagnitude []
  (distilled 4 terms).foldr (fun term sum => sum + term) 0

/-- The product `exp x * factor`, with the power taken in up to three steps, so that it overflows
only if the product does. -/
def expTimes (x factor : Binary64) : Binary64 :=
  let step : Binary64 := 709
  if x ≤ step then x.exp * factor
  else
    let once := factor * step.exp
    if x - step ≤ step then (x - step).exp * once
    else
      let twice := once * step.exp
      let rest := x - step - step
      if rest ≤ step then rest.exp * twice else largest * twice

/-- The product `exp x * factor / 2` for `x` above 709. -/
def halfExpTimes (x factor : Binary64) : Binary64 :=
  let step : Binary64 := 709
  expTimes (x - step) (factor * (step.exp / 2))

end Reckoner.Binary64
