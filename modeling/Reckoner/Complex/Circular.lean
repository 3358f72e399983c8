import Reckoner.Complex.Exponential
/-!
# Hyperbolic and circular functions of complex numbers

The hyperbolic functions come first. An odd function with real coefficients commutes, up to the
factor `i`, with the exchange of the parts of its argument, which gives the circular functions
from the hyperbolic ones together with their values at zeros and infinities.
-/

namespace Reckoner.Complex

open Binary64

/-- Above this magnitude of the real part both hyperbolic functions are half an exponential. -/
def hyperbolicLimit : Binary64 := 709

/-- The hyperbolic sine. -/
def sinh (z : Complex) : Complex :=
  if z.re.isFinite then
    if z.im.isFinite then
      if hyperbolicLimit < z.re.abs then
        ⟨halfExpTimes z.re.abs (signed z.re.negative z.im.cos),
          halfExpTimes z.re.abs z.im.sin⟩
      else ⟨z.re.sinh * z.im.cos, z.re.cosh * z.im.sin⟩
    else if z.re == 0 then ⟨z.re, z.im - z.im⟩
    else undefined
  else if z.re.isInf then
    if z.im == 0 then z
    else if z.im.isFinite then
      ⟨signed z.re.negative (copySign infinity z.im.cos), copySign infinity z.im.sin⟩
    else ⟨infinity, z.im - z.im⟩
  else ⟨nan, if z.im == 0 then z.im else nan⟩

/-- The hyperbolic cosine. -/
def cosh (z : Complex) : Complex :=
  if z.re.isFinite then
    if z.im.isFinite then
      if hyperbolicLimit < z.re.abs then
        ⟨halfExpTimes z.re.abs z.im.cos,
          halfExpTimes z.re.abs (signed z.re.negative z.im.sin)⟩
      else ⟨z.re.cosh * z.im.cos, z.re.sinh * z.im.sin⟩
    else ⟨z.im - z.im, if z.re == 0 then 0 else nan⟩
  else if z.re.isInf then
    if z.im == 0 then ⟨infinity, z.im * copySign 1 z.re⟩
    else if z.im.isFinite then
      ⟨copySign infinity z.im.cos, copySign infinity z.im.sin * copySign 1 z.re⟩
    else ⟨infinity, z.im - z.im⟩
  else ⟨nan, if z.im == 0 then z.im else nan⟩

/-- The hyperbolic tangent of a finite number as the quotient with denominator
`sinh re ^ 2 + cos im ^ 2`. Far from the imaginary axis the real part is one and the imaginary part
decays with the square of the exponential. -/
def finiteTanh (z : Complex) : Complex :=
  let sine := z.im.sin
  let cosine := z.im.cos
  let limit : Binary64 := 354
  if limit < z.re.abs then
    let decayed := 4 * sine * cosine / (2 * limit).exp
    let beyond := z.re.abs - limit
    ⟨copySign 1 z.re,
      if limit < beyond then decayed / (2 * limit).exp else decayed / (2 * beyond).exp⟩
  else
    let sinh := z.re.sinh
    let cosh := z.re.cosh
    let denominator :=
      if cosine.abs * epsilon < sinh.abs then sinh * sinh + cosine * cosine
      else cosine * cosine
    ⟨sinh * cosh / denominator, sine * cosine / denominator⟩

/-- The hyperbolic tangent. -/
def tanh (z : Complex) : Complex :=
  if z.isFinite then finiteTanh z
  else if z.re.isInf then
    ⟨copySign 1 z.re,
      if z.im.isFinite ∧ 1 < z.im.abs then copySign 0 (z.im.sin * z.im.cos)
      else copySign 0 z.im⟩
  else if z.im == 0 then z
  else ⟨if z.re == 0 then z.re else nan, nan⟩

/-- The sine, where a NaN as the real part counts without its sign. -/
def sin (z : Complex) : Complex :=
  let z : Complex := ⟨if z.re.isNaN then z.re.abs else z.re, z.im⟩
  z.swap.sinh.swap

/-- The cosine. -/
def cos (z : Complex) : Complex := cosh ⟨-z.im, z.re⟩

/-- The tangent. -/
def tan (z : Complex) : Complex := z.swap.tanh.swap

end Reckoner.Complex
