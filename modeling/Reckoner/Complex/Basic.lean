import Reckoner.Binary64.Elementary
/-!
# Complex arithmetic in doubles

Complex numbers of two double parts. Sums are taken part by part. A number is infinite if a part is,
whatever the other part: where the schoolbook formula of a product or quotient makes a NaN of both
parts although a factor is infinite, the infinity is recovered. A quotient is scaled so that
intermediate results do not leave the range of doubles.
-/

namespace Reckoner

/-- A complex number. -/
structure Complex where
  /-- The real part. -/
  re : Binary64
  /-- The imaginary part. -/
  im : Binary64
  deriving DecidableEq

namespace Complex

open Binary64 (copySign infinity epsilon smallestNormal largest)

/-- The number zero. -/
def zero : Complex := ⟨0, 0⟩

/-- Both parts are NaN. -/
def undefined : Complex := ⟨Binary64.nan, Binary64.nan⟩

/-- The real number `x` as a complex one. -/
def ofReal (x : Binary64) : Complex := ⟨x, 0⟩

/-- A part is NaN. -/
def isNaN (z : Complex) : Bool := z.re.isNaN || z.im.isNaN

/-- A part is infinite. -/
def isInf (z : Complex) : Bool := z.re.isInf || z.im.isInf

/-- No part is infinite or NaN. -/
def isFinite (z : Complex) : Bool := z.re.isFinite && z.im.isFinite

/-- Both parts are zero, of either sign. -/
def isZero (z : Complex) : Bool := z.re == 0 && z.im == 0

/-- Apply a function to both parts. -/
def map (f : Binary64 → Binary64) (z : Complex) : Complex := ⟨f z.re, f z.im⟩

/-- Exchange the parts: the reflection that takes `z` to `i` times its conjugate. -/
def swap (z : Complex) : Complex := ⟨z.im, z.re⟩

/-- The sum. -/
def add (z w : Complex) : Complex := ⟨z.re + w.re, z.im + w.im⟩

/-- The difference. -/
def sub (z w : Complex) : Complex := ⟨z.re - w.re, z.im - w.im⟩

/-- The negative; both parts change their sign. -/
def neg (z : Complex) : Complex := z.map (-·)

instance : Add Complex := ⟨add⟩
instance : Sub Complex := ⟨sub⟩
instance : Neg Complex := ⟨neg⟩

/-- The schoolbook product. -/
def plainProduct (z w : Complex) : Complex :=
  ⟨z.re * w.re - z.im * w.im, z.re * w.im + w.re * z.im⟩

/-- An infinite part becomes a unit of its sign, and every other part a zero of its sign. -/
def direction (z : Complex) : Complex :=
  z.map fun x => copySign (if x.isInf then 1 else 0) x

/-- A NaN part becomes zero. -/
def withoutNaN (z : Complex) : Complex :=
  z.map fun x => if x.isNaN then copySign 0 x else x

/-- The factor that stands for `z` where an infinite product is recovered. -/
def recoveryFactor (z : Complex) : Complex :=
  if z.isInf then z.direction else z.withoutNaN

/-- One of the four partial products is infinite. -/
def productOverflows (z w : Complex) : Bool :=
  (z.re * w.re).isInf || (z.im * w.im).isInf || (z.re * w.im).isInf || (z.im * w.re).isInf

/-- The product. It is infinite if a factor is infinite and the other one not zero. -/
def mul (z w : Complex) : Complex :=
  let product := plainProduct z w
  if product.re.isNaN && product.im.isNaN && (z.isInf || w.isInf || productOverflows z w) then
    (plainProduct z.recoveryFactor w.recoveryFactor).map (infinity * ·)
  else product

instance : Mul Complex := ⟨mul⟩

/-- Scale numerator and denominator alike so that their quotient can be taken without overflow or
underflow on the way. -/
def balanced (z w : Complex) : Complex × Complex :=
  let moderate := largest / 2 * epsilon
  let leading (w : Complex) := if w.re.abs < w.im.abs then w.im.abs else w.re.abs
  let halved := largest / 2 ≤ leading w
  let z := if halved then z.map (· / 2) else z
  let w := if halved then w.map (· / 2) else w
  let fades (part other : Binary64) : Bool :=
    part.abs < smallestNormal ∧ other.abs < moderate ∧ leading w < moderate
  if leading w < epsilon ∨ fades z.re z.im ∨ fades z.im z.re then
    (z.map (· * (1 / epsilon)), w.map (· * (1 / epsilon)))
  else (z, w)

/-- The quotient by the method of scaling with the ratio of the parts of the denominator, where
the real part of the denominator is at least as large as the imaginary part. -/
def quotientByReal (z w : Complex) : Complex :=
  let ratio := w.im / w.re
  let denominator := w.im * ratio + w.re
  if smallestNormal < ratio.abs then
    ⟨(z.im * ratio + z.re) / denominator, (z.im - ratio * z.re) / denominator⟩
  else
    ⟨(z.im / w.re * w.im + z.re) / denominator, (z.im - z.re / w.re * w.im) / denominator⟩

/-- The same method where the imaginary part of the denominator is the larger one. -/
def quotientByImaginary (z w : Complex) : Complex :=
  let ratio := w.re / w.im
  let denominator := w.re * ratio + w.im
  if smallestNormal < ratio.abs then
    ⟨(z.re * ratio + z.im) / denominator, (ratio * z.im - z.re) / denominator⟩
  else
    ⟨(z.re / w.im * w.re + z.im) / denominator, (z.im / w.im * w.re - z.re) / denominator⟩

/-- The product of `z` with the conjugate of `w`. -/
def timesConjugate (z w : Complex) : Complex :=
  ⟨z.re * w.re + z.im * w.im, z.im * w.re - z.re * w.im⟩

/-- The quotient of two balanced numbers. A number other than zero divided by zero and an infinite
number divided by a finite one are infinite; a finite number divided by an infinite one is zero. -/
def balancedQuotient (z w : Complex) : Complex :=
  let quotient := if w.re.abs < w.im.abs then quotientByImaginary z w else quotientByReal z w
  if !(quotient.re.isNaN && quotient.im.isNaN) then quotient
  else if w.isZero && !(z.re.isNaN && z.im.isNaN) then
    z.map (copySign infinity w.re * ·)
  else if z.isInf && w.isFinite then (timesConjugate z.direction w).map (infinity * ·)
  else if w.isInf && z.isFinite then (timesConjugate z w.direction).map (0 * ·)
  else quotient

/-- The quotient. -/
def div (z w : Complex) : Complex :=
  let (z, w) := balanced z w
  balancedQuotient z w

instance : Div Complex := ⟨div⟩

end Complex

end Reckoner
