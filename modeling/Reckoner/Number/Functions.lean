import Reckoner.Complex.Circular
import Reckoner.Complex.Inverse
import Reckoner.Number.Basic
/-!
# Functions of numbers

The elementary functions take a real number to a real one inside their real domain, with the real
function, so that no rounding error leaks into an imaginary part. A real number outside the domain
is taken as a complex one.
-/

namespace Reckoner.Number

open Binary64 (halfPi)

/-- A function whose real domain are all real numbers. -/
def onAll (onReal : Binary64 → Binary64) (onComplex : Complex → Complex) : Number → Number
  | .real x => .real (onReal x)
  | .complex z => .complex (onComplex z)

/-- A function that leaves the real numbers where `outside` holds. A NaN stays real. -/
def onDomain (outside : Binary64 → Bool) (onReal : Binary64 → Binary64)
    (onComplex : Complex → Complex) : Number → Number
  | .real x => if outside x then .complex (onComplex (.ofReal x)) else .real (onReal x)
  | .complex z => .complex (onComplex z)

/-- The cosine. -/
def cos : Number → Number := onAll Binary64.cos Complex.cos

/-- The sine. -/
def sin : Number → Number := onAll Binary64.sin Complex.sin

/-- The tangent. -/
def tan : Number → Number := onAll Binary64.tan Complex.tan

/-- The cotangent. -/
def cot : Number → Number := onAll (fun x => x.cos / x.sin) fun z => z.cos / z.sin

/-- The hyperbolic cosine. -/
def cosh : Number → Number := onAll Binary64.cosh Complex.cosh

/-- The hyperbolic sine. -/
def sinh : Number → Number := onAll Binary64.sinh Complex.sinh

/-- The hyperbolic tangent. -/
def tanh : Number → Number := onAll Binary64.tanh Complex.tanh

/-- The hyperbolic cotangent. -/
def coth : Number → Number := onAll (fun x => x.cosh / x.sinh) fun z => z.cosh / z.sinh

/-- The inverse tangent. -/
def arctan : Number → Number := onAll Binary64.atan Complex.arctan

/-- The inverse cotangent, a right angle less the inverse tangent. -/
def arccot : Number → Number :=
  onAll (fun x => halfPi - x.atan) fun z =>
    let tangent := z.arctan
    ⟨halfPi - tangent.re, -tangent.im⟩

/-- The inverse hyperbolic sine. -/
def arcsinh : Number → Number := onAll Binary64.asinh Complex.arcsinh

/-- The exponential function. -/
def exp : Number → Number := onAll Binary64.exp Complex.exp

/-- A real number is beyond one in magnitude. -/
def beyondOne (x : Binary64) : Bool := x < -1 || 1 < x

/-- The inverse cosine, real from -1 to 1. -/
def arccos : Number → Number := onDomain beyondOne Binary64.acos Complex.arccos

/-- The inverse sine, real from -1 to 1. -/
def arcsin : Number → Number := onDomain beyondOne Binary64.asin Complex.arcsin

/-- The inverse hyperbolic cosine, real from 1 on. -/
def arccosh : Number → Number := onDomain (· < 1) Binary64.acosh Complex.arccosh

/-- The inverse hyperbolic tangent, real from -1 to 1. -/
def arctanh : Number → Number := onDomain beyondOne Binary64.atanh Complex.arctanh

/-- The inverse hyperbolic cotangent, which is the inverse hyperbolic tangent of the reciprocal and
real outside the open interval from -1 to 1. -/
def arccoth : Number → Number
  | .real x =>
    if -1 < x && x < 1 then .complex (Complex.ofReal (1 / x)).arctanh
    else .real (1 / x).atanh
  | .complex z => .complex (Complex.ofReal 1 / z).arctanh

/-- The natural logarithm, real for numbers that are not negative. -/
def ln : Number → Number := onDomain (· < 0) Binary64.log Complex.log

/-- The square root, real for numbers that are not negative. -/
def sqrt : Number → Number := onDomain (· < 0) Binary64.sqrt Complex.sqrt

/-- The real part as a real number. -/
def realPart (a : Number) : Number := .real a.re

/-- The imaginary part as a real number. -/
def imaginaryPart (a : Number) : Number := .real a.im

end Reckoner.Number
