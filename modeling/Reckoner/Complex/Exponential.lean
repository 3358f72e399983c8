import Reckoner.Binary64.Compound
import Reckoner.Complex.Basic
/-!
# Exponential, logarithm and square root of complex numbers

The principal values. Their branch cuts tell the sides apart by the sign of a zero, and they extend
to infinities with the directions that limits have there. The formulas avoid cancellation: the
logarithm of a modulus near one is taken from the distance of its square to one, and the
smaller part of a square root from the larger one.
-/

namespace Reckoner.Complex

open Binary64

/-- The exponential function. -/
def exp (z : Complex) : Complex :=
  if z.re.isFinite then
    if z.im.isFinite then ⟨expTimes z.re z.im.cos, expTimes z.re z.im.sin⟩ else undefined
  else if z.re.isInf then
    let modulus := if z.re.negative then 0 else infinity
    if z.im == 0 then ⟨modulus, z.im⟩
    else if z.im.isFinite then ⟨copySign modulus z.im.cos, copySign modulus z.im.sin⟩
    else if z.re.negative then ⟨0, copySign 0 z.im⟩
    else ⟨infinity, z.im - z.im⟩
  else ⟨nan, if z.im == 0 then z.im else nan⟩

/-- The logarithm of the modulus of a number of parts `long` and `short`, both finite, not both
zero, and `0 ≤ short ≤ long`. -/
def logModulus (long short : Binary64) : Binary64 :=
  if largest / 2 < long then
    (hypot (long / 2) (if smallestNormal * 2 ≤ short then short / 2 else 0)).log + ln2
  else if long < smallestNormal then
    (hypot (long * powerOfTwo 53) (short * powerOfTwo 53)).log - 53 * ln2
  else if long == 1 then log1p (short * short) / 2
  else if 1 < long ∧ long < 2 ∧ short < 1 then
    let excess := (long - 1) * (long + 1)
    log1p (if epsilon ≤ short then excess + short * short else excess) / 2
  else if long < 1 ∧ 0.5 ≤ long ∧ short < epsilon / 2 then
    log1p ((long - 1) * (long + 1)) / 2
  else if long < 1 ∧ 0.5 ≤ long ∧ 0.5 ≤ long * long + short * short then
    log1p (squaresMinusOne long short) / 2
  else (hypot long short).log

/-- The natural logarithm. Its cut lies along the negative real axis, and the sign of a zero
imaginary part tells the sides apart. -/
def log (z : Complex) : Complex :=
  if z.isZero then ⟨-infinity, copySign (if z.re.negative then pi else 0) z.im⟩
  else if z.isNaN then ⟨if z.isInf then infinity else nan, nan⟩
  else
    let long := if z.re.abs < z.im.abs then z.im.abs else z.re.abs
    let short := if z.re.abs < z.im.abs then z.re.abs else z.im.abs
    ⟨if z.isInf then infinity else logModulus long short, atan2 z.im z.re⟩

/-- The square root of a finite number with both parts other than zero, times a power of two
that is given back at the end. -/
def scaledSqrt (re im scale : Binary64) : Complex :=
  let modulus := hypot re im
  if 0 < re then
    let part := (0.5 * (modulus + re)).sqrt
    if scale == 2 && im.abs < 2 then ⟨part * scale, im / part⟩
    else ⟨part * scale, 0.5 * (im / part) * scale⟩
  else
    let part := (0.5 * (modulus - re)).sqrt
    if scale == 2 && im.abs < 2 then ⟨(im / part).abs, part * scale⟩
    else ⟨(0.5 * (im / part)).abs * scale, part * scale⟩

/-- The square root in the right half plane. Its cut lies along the negative real axis. -/
def sqrt (z : Complex) : Complex :=
  if z.im.isInf then ⟨infinity, z.im⟩
  else if z.re.isInf then
    if z.re < 0 then ⟨if z.im.isNaN then nan else 0, copySign infinity z.im⟩
    else ⟨z.re, if z.im.isNaN then nan else copySign 0 z.im⟩
  else if z.isNaN then undefined
  else if z.im == 0 then
    if z.re < 0 then ⟨0, copySign (-z.re).sqrt z.im⟩
    else ⟨z.re.sqrt.abs, copySign 0 z.im⟩
  else if z.re == 0 then
    let part :=
      if 2 * smallestNormal ≤ z.im.abs then (0.5 * z.im.abs).sqrt
      else 0.5 * (2 * z.im.abs).sqrt
    ⟨part, copySign part z.im⟩
  else
    let root :=
      if largest / 4 < z.re.abs then scaledSqrt (z.re / 4) (z.im / 4) 2
      else if largest / 4 < z.im.abs then
        scaledSqrt (if 4 * smallestNormal ≤ z.re.abs then z.re / 4 else 0) (z.im / 4) 2
      else if z.re.abs < 2 * smallestNormal ∧ z.im.abs < 2 * smallestNormal then
        scaledSqrt (z.re * powerOfTwo 54) (z.im * powerOfTwo 54) (powerOfTwo (-27))
      else scaledSqrt z.re z.im 1
    ⟨root.re, copySign root.im z.im⟩

end Reckoner.Complex
