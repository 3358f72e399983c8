import Reckoner.Context.Evaluate
/-!
# Values with a tag

A number can be kept as a tag beside a complex value, so that a real number has an imaginary part as
well. Then every operation has to take care of it: real numbers are combined with real arithmetic
and get the imaginary part `+0` anew, a mixed operation takes the complex values as they are, and
where a real number leaves the domain of a real function it enters the complex one with the
imaginary part `+0`. The operations are given here in this form. A number of the calculator stands
for a tagged value, that of a real one with the imaginary part `+0`, and every operation on numbers
gives the number that stands for the result of the operation on tagged values.
-/

namespace Reckoner

/-- The number sets. -/
inductive Kind where
  | real | complex
  deriving DecidableEq, Repr

/-- A tag beside a complex value. -/
structure Tagged where
  /-- The number set. -/
  kind : Kind
  /-- The value. -/
  value : Complex
  deriving DecidableEq

namespace Tagged

/-- A real number; its imaginary part is `+0`. -/
def ofReal (x : Binary64) : Tagged := ⟨.real, ⟨x, 0⟩⟩

/-- A complex number. -/
def ofComplex (z : Complex) : Tagged := ⟨.complex, z⟩

/-- The value of operations without a result. -/
def undefined : Tagged := ofReal Binary64.nan

/-- The real part. -/
def re (a : Tagged) : Binary64 := a.value.re

/-- The imaginary part. -/
def im (a : Tagged) : Binary64 := a.value.im

/-- The set of the result of two operands. -/
def joint (a b : Tagged) : Kind := if a.kind = .complex ∨ b.kind = .complex then .complex else .real

/-- Combine the real parts of two real numbers, and the values of all others. -/
def combine (onReal : Binary64 → Binary64 → Binary64) (onComplex : Complex → Complex → Complex)
    (a b : Tagged) : Tagged :=
  if a.kind = .real ∧ b.kind = .real then ofReal (onReal a.re b.re)
  else ⟨joint a b, onComplex a.value b.value⟩

/-- The negative. That of a real number is taken of its real part only. -/
def neg (a : Tagged) : Tagged :=
  if a.kind = .real then ofReal (-a.re) else ofComplex (-a.value)

/-- The power of a base. -/
def pow (base exponent : Tagged) : Tagged :=
  if base.kind = .real ∧ exponent.kind = .real then ofReal (Binary64.pow base.re exponent.re)
  else if base.value.isZero then
    if 0 < exponent.re then ofComplex .zero else undefined
  else ofComplex (base.value.log * exponent.value).exp

/-- The root of a radicand. -/
def root (radicand degree : Tagged) : Tagged :=
  pow radicand (combine (· / ·) (· / ·) (ofReal 1) degree)

/-- The remainder of the division of two whole real numbers. -/
def mod (a b : Tagged) : Tagged :=
  if a.kind = .complex ∨ b.kind = .complex then undefined
  else if Binary64.whole a.re && Binary64.whole b.re && b.re != 0 then
    ofReal (Binary64.remainder a.re b.re)
  else undefined

/-- The value with which an operand enters a complex function. -/
def entering (a : Tagged) : Complex := if a.kind = .real then ⟨a.re, 0⟩ else a.value

/-- A function that keeps the number set. -/
def preserving (onReal : Binary64 → Binary64) (onComplex : Complex → Complex) (a : Tagged) :
    Tagged :=
  if a.kind = .real then ofReal (onReal a.re) else ofComplex (onComplex a.value)

/-- A function that leaves the real numbers where `outside` holds. -/
def restricted (outside : Binary64 → Bool) (onReal : Binary64 → Binary64)
    (onComplex : Complex → Complex) (a : Tagged) : Tagged :=
  if a.kind = .real ∧ outside a.re = false then ofReal (onReal a.re)
  else ofComplex (onComplex a.entering)

/-- The inverse hyperbolic cotangent, by way of the reciprocal. -/
def arccoth (a : Tagged) : Tagged :=
  if a.kind = .real then
    if -1 < a.re && a.re < 1 then ofComplex (Complex.arctanh ⟨1 / a.re, 0⟩)
    else ofReal (1 / a.re).atanh
  else ofComplex (Complex.ofReal 1 / a.value).arctanh

/-- The value of a literal. -/
def ofLiteral (spelling : String) (imaginary : Bool) : Tagged :=
  let value := Literal.value spelling.toList
  if imaginary then ofComplex ⟨0, value⟩ else ofReal value

end Tagged

/-- The tagged value of an operand with a sign. -/
def Sign.applyTagged : Sign → Tagged → Tagged
  | .plus, a => a
  | .minus, a => a.neg

/-- The tagged value of two operands with an operator. -/
def Operator.applyTagged : Operator → Tagged → Tagged → Option Tagged
  | .assign, _, _ => none
  | .add, a, b => a.combine (· + ·) (· + ·) b
  | .sub, a, b => a.combine (· - ·) (· - ·) b
  | .mul, a, b => a.combine (· * ·) (· * ·) b
  | .div, a, b => a.combine (· / ·) (· / ·) b
  | .mod, a, b => a.mod b
  | .pow, a, b => a.pow b

namespace BuiltIn

/-- The tagged value of a function of one argument. -/
def applyOneTagged (a : Tagged) : BuiltIn → Option Tagged
  | .cos => a.preserving Binary64.cos Complex.cos
  | .sin => a.preserving Binary64.sin Complex.sin
  | .tan => a.preserving Binary64.tan Complex.tan
  | .cot => a.preserving (fun x => x.cos / x.sin) fun z => z.cos / z.sin
  | .cosh => a.preserving Binary64.cosh Complex.cosh
  | .sinh => a.preserving Binary64.sinh Complex.sinh
  | .tanh => a.preserving Binary64.tanh Complex.tanh
  | .coth => a.preserving (fun x => x.cosh / x.sinh) fun z => z.cosh / z.sinh
  | .arccos => a.restricted Number.beyondOne Binary64.acos Complex.arccos
  | .arcsin => a.restricted Number.beyondOne Binary64.asin Complex.arcsin
  | .arctan => a.preserving Binary64.atan Complex.arctan
  | .arccot => a.preserving (fun x => Binary64.halfPi - x.atan) fun z =>
      ⟨Binary64.halfPi - z.arctan.re, -z.arctan.im⟩
  | .arccosh => a.restricted (· < 1) Binary64.acosh Complex.arccosh
  | .arcsinh => a.preserving Binary64.asinh Complex.arcsinh
  | .arctanh => a.restricted Number.beyondOne Binary64.atanh Complex.arctanh
  | .arccoth => a.arccoth
  | .exp => a.preserving Binary64.exp Complex.exp
  | .ln => a.restricted (· < 0) Binary64.log Complex.log
  | .sqrt => a.restricted (· < 0) Binary64.sqrt Complex.sqrt
  | .re => Tagged.ofReal a.re
  | .im => Tagged.ofReal a.im
  | .pow | .root => none

/-- The tagged value of a function of two arguments. -/
def applyTwoTagged (a b : Tagged) : BuiltIn → Option Tagged
  | .pow => a.pow b
  | .root => a.root b
  | _ => none

/-- The tagged value of a built-in function, if it has as many arguments as it takes. -/
def applyTagged (function : BuiltIn) : List Tagged → Option Tagged
  | [a] => function.applyOneTagged a
  | [a, b] => function.applyTwoTagged a b
  | _ => none

end BuiltIn

namespace Number

/-- The tagged value that a number stands for. -/
def tagged : Number → Tagged
  | .real x => .ofReal x
  | .complex z => .ofComplex z

/-- The tagged value of a real number has the imaginary part `+0`. -/
theorem im_tagged {a : Number} (real : a.tagged.kind = .real) : a.tagged.value.im = 0 := by
  cases a with
  | real x => rfl
  | complex z => contradiction

variable (a b : Number)

/-- Combining numbers combines the tagged values. -/
theorem tagged_combine (onReal : Binary64 → Binary64 → Binary64)
    (onComplex : Complex → Complex → Complex) :
    (combine onReal onComplex a b).tagged = a.tagged.combine onReal onComplex b.tagged := by
  cases a <;> cases b <;> rfl

/-- The negative of a number is that of its tagged value. -/
theorem tagged_neg : a.neg.tagged = a.tagged.neg := by
  cases a <;> rfl

/-- A power of numbers is that of their tagged values. -/
theorem tagged_pow : (pow a b).tagged = a.tagged.pow b.tagged := by
  have complexCase (base exponent : Complex) : (complexPow base exponent).tagged =
      if base.isZero then if 0 < exponent.re then .ofComplex .zero else Tagged.undefined
      else .ofComplex (base.log * exponent).exp := by
    unfold complexPow
    split
    · split <;> rfl
    · rfl
  cases a <;> cases b <;> first | rfl | exact complexCase _ _

/-- A root of numbers is that of their tagged values. -/
theorem tagged_root : (root a b).tagged = a.tagged.root b.tagged := by
  rw [root, tagged_pow, div, tagged_combine]
  rfl

/-- A remainder of numbers is that of their tagged values. -/
theorem tagged_mod : (mod a b).tagged = a.tagged.mod b.tagged := by
  cases a with
  | complex z => rfl
  | real x =>
    cases b with
    | complex z => rfl
    | real y =>
      have bothReal : ¬ ((tagged (.real x)).kind = .complex ∨ (tagged (.real y)).kind = .complex) :=
        by simp [tagged, Tagged.ofReal]
      rw [Tagged.mod, if_neg bothReal, mod]
      exact apply_ite tagged _ _ _

/-- A function that keeps the number set does so with tagged values. -/
theorem tagged_onAll (onReal : Binary64 → Binary64) (onComplex : Complex → Complex) :
    (onAll onReal onComplex a).tagged = a.tagged.preserving onReal onComplex := by
  cases a <;> rfl

/-- A function that may leave the real numbers does so with tagged values. -/
theorem tagged_onDomain (outside : Binary64 → Bool) (onReal : Binary64 → Binary64)
    (onComplex : Complex → Complex) :
    (onDomain outside onReal onComplex a).tagged =
      a.tagged.restricted outside onReal onComplex := by
  cases a with
  | complex z => rfl
  | real x =>
    rw [onDomain, Tagged.restricted]
    cases beyond : outside x with
    | true =>
      have leaves : ¬ ((tagged (.real x)).kind = .real ∧ outside (tagged (.real x)).re = false) :=
        fun stays => absurd (beyond.symm.trans stays.2) Bool.noConfusion
      rw [if_pos rfl, if_neg leaves]
      rfl
    | false =>
      rw [if_neg Bool.false_ne_true, if_pos ⟨rfl, beyond⟩]
      rfl

/-- An inverse hyperbolic cotangent is that of the tagged value. -/
theorem tagged_arccoth : a.arccoth.tagged = a.tagged.arccoth := by
  cases a with
  | complex z => rfl
  | real x =>
    rw [arccoth, Tagged.arccoth, if_pos (show (tagged (.real x)).kind = .real from rfl),
      apply_ite tagged]
    rfl

/-- The tagged value of a literal. -/
theorem tagged_literalValue (spelling : String) (imaginary : Bool) :
    (literalValue spelling imaginary).tagged = Tagged.ofLiteral spelling imaginary := by
  cases imaginary <;> rfl

end Number

/-- A sign does with tagged values what it does with numbers. -/
theorem Sign.tagged_apply (sign : Sign) (a : Number) :
    (sign.apply a).tagged = sign.applyTagged a.tagged := by
  cases sign with
  | plus => rfl
  | minus => exact a.tagged_neg

/-- An operator does with tagged values what it does with numbers. -/
theorem Operator.tagged_apply (operator : Operator) (a b : Number) :
    (operator.apply a b).map Number.tagged = operator.applyTagged a.tagged b.tagged := by
  cases operator with
  | assign => rfl
  | add | sub | mul | div => exact congrArg some (a.tagged_combine b _ _)
  | mod => exact congrArg some (a.tagged_mod b)
  | pow => exact congrArg some (a.tagged_pow b)

/-- An operator has a tagged value exactly if it has a number that stands for it. -/
theorem Operator.applyTagged_eq_some_iff (operator : Operator) (a b : Number) (tagged : Tagged) :
    operator.applyTagged a.tagged b.tagged = some tagged ↔
      ∃ value, operator.apply a b = some value ∧ value.tagged = tagged := by
  rw [← operator.tagged_apply, Option.map_eq_some_iff]

namespace BuiltIn

/-- A function of one argument does with tagged values what it does with numbers. -/
theorem tagged_applyOne (function : BuiltIn) (a : Number) :
    (function.applyOne a).map Number.tagged = function.applyOneTagged a.tagged := by
  cases function with
  | pow | root => rfl
  | cos | sin | tan | cot | cosh | sinh | tanh | coth | arctan | arccot | arcsinh | exp =>
    exact congrArg some (a.tagged_onAll _ _)
  | arccos | arcsin | arccosh | arctanh | ln | sqrt =>
    exact congrArg some (a.tagged_onDomain _ _ _)
  | arccoth => exact congrArg some a.tagged_arccoth
  | re | im => cases a <;> rfl

/-- A function of two arguments does with tagged values what it does with numbers. -/
theorem tagged_applyTwo (function : BuiltIn) (a b : Number) :
    (function.applyTwo a b).map Number.tagged = function.applyTwoTagged a.tagged b.tagged := by
  cases function with
  | pow => exact congrArg some (a.tagged_pow b)
  | root => exact congrArg some (a.tagged_root b)
  | _ => rfl

/-- A built-in function does with tagged values what it does with numbers. -/
theorem tagged_apply (function : BuiltIn) (values : List Number) :
    (function.apply values).map Number.tagged =
      function.applyTagged (values.map Number.tagged) := by
  match values with
  | [] | _ :: _ :: _ :: _ => rfl
  | [a] => exact function.tagged_applyOne a
  | [a, b] => exact function.tagged_applyTwo a b

/-- A built-in function has a tagged value exactly if it has a number that stands for it. -/
theorem applyTagged_eq_some_iff (function : BuiltIn) (values : List Number) (tagged : Tagged) :
    function.applyTagged (values.map Number.tagged) = some tagged ↔
      ∃ value, function.apply values = some value ∧ value.tagged = tagged := by
  rw [← function.tagged_apply, Option.map_eq_some_iff]

end BuiltIn

end Reckoner
