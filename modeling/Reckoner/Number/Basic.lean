import Reckoner.Complex.Exponential
/-!
# Numbers of the calculator

A number is real or complex. A real number has no imaginary part of its own: where it meets a
complex one it enters with the imaginary part `+0`, so the principal branch is taken. Two real
numbers are combined with real arithmetic, and a result is complex as soon as an operand is.
-/

namespace Reckoner

/-- A real or a complex number. -/
inductive Number where
  | real (x : Binary64)
  | complex (z : Complex)
  deriving DecidableEq

namespace Number

/-- The value of operations without a result. -/
def undefined : Number := .real Binary64.nan

instance : Inhabited Number := ⟨undefined⟩

/-- The number as a complex one; a real number has the imaginary part `+0`. -/
def toComplex : Number → Complex
  | .real x => .ofReal x
  | .complex z => z

/-- The real part. -/
def re (a : Number) : Binary64 := a.toComplex.re

/-- The imaginary part. -/
def im (a : Number) : Binary64 := a.toComplex.im

/-- The number belongs to the real ones. -/
def isReal : Number → Bool
  | .real _ => true
  | .complex _ => false

/-- A part is NaN. -/
def isNaN (a : Number) : Bool := a.toComplex.isNaN

/-- Combine two real numbers by one operation, and all others by its complex counterpart. -/
def combine (onReal : Binary64 → Binary64 → Binary64) (onComplex : Complex → Complex → Complex)
    (a b : Number) : Number :=
  match a, b with
  | .real x, .real y => .real (onReal x y)
  | _, _ => .complex (onComplex a.toComplex b.toComplex)

/-- The sum. -/
def add : Number → Number → Number := combine (· + ·) (· + ·)

/-- The difference. -/
def sub : Number → Number → Number := combine (· - ·) (· - ·)

/-- The product. -/
def mul : Number → Number → Number := combine (· * ·) (· * ·)

/-- The quotient. -/
def div : Number → Number → Number := combine (· / ·) (· / ·)

/-- The negative. -/
def neg : Number → Number
  | .real x => .real (-x)
  | .complex z => .complex (-z)

/-- A power of complex numbers by way of the logarithm of the base. A power of zero is zero where
the real part of the exponent is positive, and undefined otherwise. -/
def complexPow (base exponent : Complex) : Number :=
  if base.isZero then
    if 0 < exponent.re then .complex .zero else undefined
  else .complex (base.log * exponent).exp

/-- The power of a base. -/
def pow (base exponent : Number) : Number :=
  match base, exponent with
  | .real x, .real y => .real (Binary64.pow x y)
  | _, _ => complexPow base.toComplex exponent.toComplex

/-- The root of a radicand, as the power whose exponent is the inverse of the degree. -/
def root (radicand degree : Number) : Number := pow radicand (div (.real 1) degree)

/-- The remainder of the division of two whole real numbers, with the sign of the dividend. It is
undefined for all other numbers and for the divisor zero. -/
def mod : Number → Number → Number
  | .real x, .real y =>
    if Binary64.whole x && Binary64.whole y && y != 0 then .real (Binary64.remainder x y)
    else undefined
  | _, _ => undefined

end Number

end Reckoner
