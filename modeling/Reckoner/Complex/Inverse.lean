import Reckoner.Complex.Exponential
/-!
# Inverse hyperbolic and circular functions of complex numbers

The inverse sine and cosine, hyperbolic and circular, all read their parts off the same three
quantities of the first quadrant: a logarithm and the sides of a right triangle whose angle is the
other part. The plane is divided into regions so that none of the three is the difference of nearly
equal numbers.
-/

namespace Reckoner.Complex

open Binary64

/-- What the inverse hyperbolic sine of a number in the first quadrant is made of. -/
structure Arc where
  /-- The real part. -/
  logarithm : Binary64
  /-- The side opposite the angle that is the imaginary part. -/
  opposite : Binary64
  /-- The side adjacent to it. -/
  adjacent : Binary64

/-- The arc of `re + im * i` close to the imaginary axis, where `re < 0.5`, from
`distance = |1 - im ^ 2|`. On the cut, where `1 < im`, `outside` is set. -/
def nearAxisArc (re im distance : Binary64) (outside : Bool) : Arc :=
  let square := re * re
  let rest := square * (2 + square + 2 * im * im)
  let root := (distance * distance + rest).sqrt
  let larger := root + distance
  let smaller := rest / larger
  let grown := if outside then smaller else larger
  let shrunk := if outside then larger else smaller
  let realRoot := ((grown + square) / 2).sqrt
  let imagRoot := re * im / realRoot
  ⟨log1p (square + shrunk + 2 * (re * realRoot + im * imagRoot)) / 2,
    im + imagRoot, re + realRoot⟩

/-- The arc of `re + i`, where `re < 0.5`. -/
def besideUnitArc (re : Binary64) : Arc :=
  if re < epsilon / 8 then ⟨log1p (2 * (re + re.sqrt)) / 2, 1, re.sqrt⟩
  else
    let root := re * (4 + re * re).sqrt
    let realRoot := ((root + re * re) / 2).sqrt
    let imagRoot := ((root - re * re) / 2).sqrt
    ⟨log1p (re * re + root + 2 * (re * realRoot + imagRoot)) / 2, 1 + imagRoot, re + realRoot⟩

/-- The arc of `re + im * i`, where `im < 1` and `re < 0.5`. -/
def belowUnitArc (re im : Binary64) : Arc :=
  if epsilon ≤ im then
    let distance := (1 + im) * (1 - im)
    if re < epsilon * epsilon then ⟨log1p (2 * re / distance.sqrt) / 2, im, distance.sqrt⟩
    else nearAxisArc re im distance false
  else
    let side := hypot 1 re
    ⟨log1p (2 * re * (re + side)) / 2, im, side⟩

/-- The arc of `re + im * i`, where `1 < im` and `re < 0.5`. -/
def aboveUnitArc (re im : Binary64) : Arc :=
  let distance := (im + 1) * (im - 1)
  if re < epsilon * epsilon then
    ⟨log1p (2 * (distance + im * distance.sqrt)) / 2, distance.sqrt, re⟩
  else nearAxisArc re im distance true

/-- The arc of a finite number `re + im * i` in the first quadrant other than zero. -/
def arc (re im : Binary64) : Arc :=
  if 1 / epsilon ≤ re ∨ 1 / epsilon ≤ im then ⟨(log ⟨re, im⟩).re + ln2, im, re⟩
  else if 0.5 ≤ re ∧ im < epsilon / 8 then
    let side := hypot 1 re
    ⟨(re + side).log, im, side⟩
  else if re < epsilon / 8 ∧ 1.5 ≤ im then
    let side := ((im + 1) * (im - 1)).sqrt
    ⟨(im + side).log, side, re⟩
  else if 1 < im ∧ im < 1.5 ∧ re < 0.5 then aboveUnitArc re im
  else if im == 1 ∧ re < 0.5 then besideUnitArc re
  else if im < 1 ∧ re < 0.5 then belowUnitArc re im
  else
    let root := sqrt ⟨(re - im) * (re + im) + 1, 2 * re * im⟩
    let sum : Complex := ⟨root.re + re, root.im + im⟩
    ⟨(log sum).re, sum.im, sum.re⟩

/-- The inverse hyperbolic sine. -/
def arcsinh (z : Complex) : Complex :=
  if z.im.isInf then
    ⟨copySign infinity z.re,
      if z.re.isNaN then nan else copySign (if z.re.isInf then quarterPi else halfPi) z.im⟩
  else if z.re.isInf then ⟨z.re, if z.im.isNaN then nan else copySign 0 z.im⟩
  else if z.re.isNaN then ⟨z.re, if z.im == 0 then z.im else nan⟩
  else if z.im.isNaN then undefined
  else if z.isZero then z
  else
    let parts := arc z.re.abs z.im.abs
    ⟨copySign parts.logarithm z.re,
      copySign (atan2 parts.opposite parts.adjacent) z.im⟩

/-- The inverse sine. Beside a NaN as the imaginary part it has a value only in a real part that
is zero or infinite. -/
def arcsin (z : Complex) : Complex :=
  if z.im.isNaN && !z.re.isInf && z.re != 0 then undefined else z.swap.arcsinh.swap

/-- The modulus and the angle that the inverse cosines of a finite number have in common. -/
def cosineArc (z : Complex) : Binary64 × Binary64 :=
  let parts := arc z.im.abs z.re.abs
  (parts.logarithm.abs, (atan2 parts.adjacent (copySign parts.opposite z.re)).abs)

/-- The inverse cosine. -/
def arccos (z : Complex) : Complex :=
  if !z.isFinite || z.isZero then
    let sine := arcsin z
    let angle := halfPi - sine.re
    ⟨if angle == 0 then 0 else angle, -sine.im⟩
  else
    let (modulus, angle) := cosineArc z
    ⟨angle, copySign modulus (-z.im)⟩

/-- The inverse hyperbolic cosine. -/
def arccosh (z : Complex) : Complex :=
  if z.im.isInf then
    ⟨infinity,
      if z.re.isNaN then nan
      else copySign
        (if !z.re.isInf then halfPi else if z.re < 0 then pi - quarterPi else quarterPi) z.im⟩
  else if z.re.isInf then
    ⟨infinity, if z.im.isNaN then nan else copySign (if z.re < 0 then pi else 0) z.im⟩
  else if z.isNaN then ⟨nan, if z.re == 0 then halfPi else nan⟩
  else if z.isZero then ⟨0, copySign halfPi z.im⟩
  else
    let (modulus, angle) := cosineArc z
    ⟨modulus, copySign angle z.im⟩

/-- The real part of the inverse hyperbolic tangent of a number whose parts are not huge. -/
def arctanhReal (re im : Binary64) : Binary64 :=
  if re.abs == 1 ∧ im.abs < epsilon * epsilon then
    copySign 0.5 re * (ln2 - im.abs.log)
  else
    let square := if epsilon * epsilon ≤ im.abs then im * im else 0
    let above := square + (1 + re) * (1 + re)
    let below := square + (1 - re) * (1 - re)
    if above / below < 0.5 then 0.25 * (above / below).log
    else 0.25 * log1p (4 * re / below)

/-- The difference `1 - long ^ 2 - short ^ 2`, where `0 ≤ short ≤ long`. -/
def oneMinusSquares (long short : Binary64) : Binary64 :=
  if short < epsilon / 2 then
    let product := (1 - long) * (1 + long)
    if product == 0 then 0 else product
  else if long < 1 ∧ (0.75 ≤ long ∨ 0.5 ≤ short) then -squaresMinusOne long short
  else (1 - long) * (1 + long) - short * short

/-- The inverse hyperbolic tangent of a finite number other than zero. -/
def finiteArctanh (z : Complex) : Complex :=
  let huge := 16 / epsilon
  if huge ≤ z.re.abs ∨ huge ≤ z.im.abs then
    let real :=
      if z.im.abs ≤ 1 then 1 / z.re
      else if z.re.abs ≤ 1 then z.re / z.im / z.im
      else
        let half := hypot (z.re / 2) (z.im / 2)
        z.re / half / half / 4
    ⟨real, copySign halfPi z.im⟩
  else
    let long := if z.re.abs < z.im.abs then z.im.abs else z.re.abs
    let short := if z.re.abs < z.im.abs then z.re.abs else z.im.abs
    ⟨arctanhReal z.re z.im, 0.5 * atan2 (2 * z.im) (oneMinusSquares long short)⟩

/-- The inverse hyperbolic tangent. -/
def arctanh (z : Complex) : Complex :=
  if z.im.isInf then ⟨copySign 0 z.re, copySign halfPi z.im⟩
  else if z.re.isInf then
    ⟨copySign 0 z.re, if z.im.isNaN then nan else copySign halfPi z.im⟩
  else if z.re.isNaN then undefined
  else if z.im.isNaN then (if z.re == 0 then ⟨z.re, nan⟩ else undefined)
  else if z.isZero then z
  else finiteArctanh z

/-- The inverse tangent. -/
def arctan (z : Complex) : Complex := z.swap.arctanh.swap

end Reckoner.Complex
