import Reckoner.Binary64.Arithmetic
/-!
# Elementary functions of doubles

The elementary functions of the platform. A NaN is passed on with its sign, and an argument at which
a function has no value makes a negative NaN.
-/

namespace Reckoner.Binary64

/-- The double of the platform that is not NaN. -/
def toFloat (x : Binary64) : Float :=
  Float.ofBits (UInt64.ofNat (x.magnitude + if x.negative then Nat.pow 2 63 else 0))

/-- A double that the platform has computed from others that are not NaN. -/
def ofFloat (x : Float) : Binary64 :=
  if x.isNaN then invalid
  else
    let pattern := x.toBits.toNat
    ofMagnitude (decide (Nat.pow 2 63 ≤ pattern)) (pattern % Nat.pow 2 63)

/-- A function of the platform as one of all doubles. -/
def lift (f : Float → Float) (x : Binary64) : Binary64 :=
  if x.isNaN then x else ofFloat (f x.toFloat)

/-- The square root. -/
def sqrt : Binary64 → Binary64 := lift Float.sqrt

/-- The exponential function. -/
def exp : Binary64 → Binary64 := lift Float.exp

/-- The natural logarithm. -/
def log : Binary64 → Binary64 := lift Float.log

/-- The sine. -/
def sin : Binary64 → Binary64 := lift Float.sin

/-- The cosine. -/
def cos : Binary64 → Binary64 := lift Float.cos

/-- The tangent. -/
def tan : Binary64 → Binary64 := lift Float.tan

/-- The hyperbolic sine. -/
def sinh : Binary64 → Binary64 := lift Float.sinh

/-- The hyperbolic cosine. -/
def cosh : Binary64 → Binary64 := lift Float.cosh

/-- The hyperbolic tangent. -/
def tanh : Binary64 → Binary64 := lift Float.tanh

/-- The inverse sine. -/
def asin : Binary64 → Binary64 := lift Float.asin

/-- The inverse cosine. -/
def acos : Binary64 → Binary64 := lift Float.acos

/-- The inverse tangent. -/
def atan : Binary64 → Binary64 := lift Float.atan

/-- The inverse hyperbolic sine. -/
def asinh : Binary64 → Binary64 := lift Float.asinh

/-- The inverse hyperbolic cosine. -/
def acosh : Binary64 → Binary64 := lift Float.acosh

/-- The inverse hyperbolic tangent. -/
def atanh : Binary64 → Binary64 := lift Float.atanh

/-- The angle from the positive first axis to the point `(x, y)`. -/
def atan2 (y x : Binary64) : Binary64 :=
  passNaN y x (ofFloat (Float.atan2 y.toFloat x.toFloat))

/-- A double is an odd integer. Infinity counts as even. -/
def isOdd (x : Binary64) : Bool := x.isFinite && decide (x.units % (2 * one) = one)

/-- The power `x ^ y`. It is one where the exponent is zero or the base one, even beside a NaN. A
negative NaN as the base changes its sign if the exponent is odd. -/
def pow (x y : Binary64) : Binary64 :=
  if y == 0 || x == 1 then 1
  else passNaN (signed (x.negative && isOdd y) x) y (ofFloat (Float.pow x.toFloat y.toFloat))

/-- The circle constant. -/
def pi : Binary64 := 3.141592653589793

/-- A right angle. -/
def halfPi : Binary64 := 1.5707963267948966

/-- Half a right angle. -/
def quarterPi : Binary64 := 0.7853981633974483

/-- The base of the natural logarithm. -/
def e : Binary64 := 2.718281828459045

/-- The natural logarithm of two. -/
def ln2 : Binary64 := 0.6931471805599453

/-- The largest finite double. -/
def largest : Binary64 := 1.7976931348623157e308

/-- The smallest double of full precision. -/
def smallestNormal : Binary64 := 2.2250738585072014e-308

/-- The distance from one to the next double. -/
def epsilon : Binary64 := 2.220446049250313e-16

end Reckoner.Binary64
