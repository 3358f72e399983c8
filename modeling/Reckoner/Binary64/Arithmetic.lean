import Reckoner.Binary64.Basic
/-!
# Arithmetic of doubles

The order and the four operations. An operation takes the exact result in units and rounds it once.
A NaN operand is passed on with its sign, the first one if both are, and operands that have no
result, such as infinities that cancel, make a negative NaN. The order sees no sign of zero, and a
NaN is neither below nor above nor equal to anything.
-/

namespace Reckoner.Binary64

/-- The double nearest to an integer. -/
def ofInt (n : Int) : Binary64 := signed (decide (n < 0)) (nearest n.natAbs 1)

/-- The place of a double in the ascending order of those that are not NaN, counted from zero. -/
def place (x : Binary64) : Int := if x.negative then -(x.magnitude : Int) else x.magnitude

/-- The doubles are not NaN and `x` is below `y`. -/
def less (x y : Binary64) : Bool := !x.isNaN && !y.isNaN && decide (x.place < y.place)

/-- The doubles are not NaN and `x` is at most `y`. -/
def atMost (x y : Binary64) : Bool := !x.isNaN && !y.isNaN && decide (x.place ≤ y.place)

/-- The doubles are not NaN and in the same place; the two zeros are. -/
def same (x y : Binary64) : Bool := !x.isNaN && !y.isNaN && decide (x.place = y.place)

instance : LT Binary64 := ⟨fun x y => x.less y = true⟩
instance : LE Binary64 := ⟨fun x y => x.atMost y = true⟩
instance : BEq Binary64 := ⟨same⟩
instance (x y : Binary64) : Decidable (x < y) := inferInstanceAs (Decidable (x.less y = true))
instance (x y : Binary64) : Decidable (x ≤ y) := inferInstanceAs (Decidable (x.atMost y = true))

/-- The first NaN of two operands, or else the result that they have. -/
def passNaN (x y result : Binary64) : Binary64 :=
  if x.isNaN then x else if y.isNaN then y else result

/-- The sum of finite doubles. A sum of zero is positive unless both operands are negative. -/
def finiteSum (x y : Binary64) : Binary64 :=
  if x.negative = y.negative then ofUnits x.negative (x.units + y.units) 1
  else if y.units < x.units then ofUnits x.negative (x.units - y.units) 1
  else if x.units < y.units then ofUnits y.negative (y.units - x.units) 1
  else 0

/-- The sum. -/
def add (x y : Binary64) : Binary64 :=
  passNaN x y <|
    if x.isInf then (if y.isInf && x.negative != y.negative then invalid else x)
    else if y.isInf then y
    else finiteSum x y

instance : Add Binary64 := ⟨add⟩

/-- The sum of finite doubles is their finite sum. -/
theorem add_of_isFinite {x y : Binary64} (finite : x.isFinite = true)
    (alsoFinite : y.isFinite = true) : x + y = finiteSum x y := by
  obtain ⟨bounded, number⟩ := (isFinite_eq_true_iff x).mp finite
  obtain ⟨alsoBounded, alsoNumber⟩ := (isFinite_eq_true_iff y).mp alsoFinite
  show add x y = finiteSum x y
  simp [add, passNaN, number, alsoNumber, bounded, alsoBounded]

/-- The difference, where a NaN keeps its sign. -/
def sub (x y : Binary64) : Binary64 := passNaN x y (x + -y)

instance : Sub Binary64 := ⟨sub⟩

/-- The difference of finite doubles is the sum with the negative. -/
theorem sub_of_isFinite {x y : Binary64} (finite : x.isFinite = true)
    (alsoFinite : y.isFinite = true) : x - y = x + -y := by
  obtain ⟨_, number⟩ := (isFinite_eq_true_iff x).mp finite
  obtain ⟨_, alsoNumber⟩ := (isFinite_eq_true_iff y).mp alsoFinite
  show sub x y = x + -y
  simp [sub, passNaN, number, alsoNumber]

/-- The sign of products and quotients: that of one operand is set and that of the other not. -/
def signsDiffer (x y : Binary64) : Bool := x.negative != y.negative

/-- The product. -/
def mul (x y : Binary64) : Binary64 :=
  passNaN x y <|
    if x.isInf || y.isInf then
      if x == 0 || y == 0 then invalid else signed (signsDiffer x y) infinity
    else ofUnits (signsDiffer x y) (x.units * y.units) one

instance : Mul Binary64 := ⟨mul⟩

/-- The product of finite doubles is that of their units, rounded once. -/
theorem mul_of_isFinite {x y : Binary64} (finite : x.isFinite = true)
    (alsoFinite : y.isFinite = true) :
    x * y = ofUnits (signsDiffer x y) (x.units * y.units) one := by
  obtain ⟨bounded, number⟩ := (isFinite_eq_true_iff x).mp finite
  obtain ⟨alsoBounded, alsoNumber⟩ := (isFinite_eq_true_iff y).mp alsoFinite
  show mul x y = _
  simp [mul, passNaN, number, alsoNumber, bounded, alsoBounded]

/-- The quotient. A divisor of zero makes infinity of all but zero. -/
def div (x y : Binary64) : Binary64 :=
  passNaN x y <|
    if x.isInf then (if y.isInf then invalid else signed (signsDiffer x y) infinity)
    else if y.isInf then signed (signsDiffer x y) 0
    else if y == 0 then (if x == 0 then invalid else signed (signsDiffer x y) infinity)
    else ofUnits (signsDiffer x y) (x.units * one) y.units

instance : Div Binary64 := ⟨div⟩

/-- The quotient of finite doubles is that of their units, rounded once. -/
theorem div_of_isFinite {x y : Binary64} (finite : x.isFinite = true)
    (alsoFinite : y.isFinite = true) (nonzero : (y == 0) = false) :
    x / y = ofUnits (signsDiffer x y) (x.units * one) y.units := by
  obtain ⟨bounded, number⟩ := (isFinite_eq_true_iff x).mp finite
  obtain ⟨alsoBounded, alsoNumber⟩ := (isFinite_eq_true_iff y).mp alsoFinite
  show div x y = _
  simp [div, passNaN, number, alsoNumber, bounded, alsoBounded, nonzero]

/-- A double is whole when it is an integer or infinite. -/
def whole (x : Binary64) : Bool := x.isInf || (x.isFinite && decide (x.units % one = 0))

/-- The number of ones in a finite double, whatever its sign; a fraction is cut off. -/
def ones (x : Binary64) : Nat := x.units / one

/-- The largest integer that is not above the double. -/
def floor (x : Binary64) : Binary64 :=
  if !x.isFinite then x
  else if x.negative ∧ ¬ one ∣ x.units then ofUnits true ((x.ones + 1) * one) 1
  else ofUnits x.negative (x.ones * one) 1

/-- The remainder of the division of `x` by `y` that is truncated toward zero. It is exact, takes
the sign of `x`, and an infinite divisor leaves `x` as it is. -/
def remainder (x y : Binary64) : Binary64 :=
  passNaN x y <|
    if x.isInf || y == 0 then invalid
    else if y.isInf then x
    else ofUnits x.negative (x.units % y.units) 1

/-- The remainder of finite doubles is that of their units. -/
theorem remainder_of_isFinite {x y : Binary64} (finite : x.isFinite = true)
    (alsoFinite : y.isFinite = true) (nonzero : (y == 0) = false) :
    remainder x y = ofUnits x.negative (x.units % y.units) 1 := by
  obtain ⟨bounded, number⟩ := (isFinite_eq_true_iff x).mp finite
  obtain ⟨alsoBounded, alsoNumber⟩ := (isFinite_eq_true_iff y).mp alsoFinite
  simp [remainder, passNaN, number, alsoNumber, bounded, alsoBounded, nonzero]

end Reckoner.Binary64
