import Reckoner.Number.Functions
/-!
# Built-in functions and constants

The functions and constants that every calculator has, by name. Several functions have a short name
beside the long one.
-/

namespace Reckoner

/-- A built-in function. -/
inductive BuiltIn where
  | cos | sin | tan | cot
  | cosh | sinh | tanh | coth
  | arccos | arcsin | arctan | arccot
  | arccosh | arcsinh | arctanh | arccoth
  | exp | ln | sqrt
  | re | im
  | pow | root
  deriving DecidableEq, Repr

namespace BuiltIn

/-- The names of the built-in functions. -/
def named : List (String × BuiltIn) :=
  [("cos", .cos), ("sin", .sin), ("tan", .tan), ("cot", .cot),
    ("cosh", .cosh), ("sinh", .sinh), ("tanh", .tanh), ("coth", .coth),
    ("arccos", .arccos), ("acos", .arccos), ("arcsin", .arcsin), ("asin", .arcsin),
    ("arctan", .arctan), ("atan", .arctan), ("arccot", .arccot), ("acot", .arccot),
    ("arccosh", .arccosh), ("acosh", .arccosh), ("arcsinh", .arcsinh), ("asinh", .arcsinh),
    ("arctanh", .arctanh), ("atanh", .arctanh), ("arccoth", .arccoth), ("acoth", .arccoth),
    ("exp", .exp), ("ln", .ln), ("sqrt", .sqrt), ("re", .re), ("im", .im),
    ("pow", .pow), ("root", .root)]

/-- The built-in function of a name. -/
def ofName? (name : String) : Option BuiltIn := named.lookup name

/-- The number of arguments of a built-in function. -/
def arity : BuiltIn → Nat
  | .pow | .root => 2
  | _ => 1

/-- The value of a function of one argument. -/
def applyOne (x : Number) : BuiltIn → Option Number
  | .cos => x.cos
  | .sin => x.sin
  | .tan => x.tan
  | .cot => x.cot
  | .cosh => x.cosh
  | .sinh => x.sinh
  | .tanh => x.tanh
  | .coth => x.coth
  | .arccos => x.arccos
  | .arcsin => x.arcsin
  | .arctan => x.arctan
  | .arccot => x.arccot
  | .arccosh => x.arccosh
  | .arcsinh => x.arcsinh
  | .arctanh => x.arctanh
  | .arccoth => x.arccoth
  | .exp => x.exp
  | .ln => x.ln
  | .sqrt => x.sqrt
  | .re => x.realPart
  | .im => x.imaginaryPart
  | .pow | .root => none

/-- The value of a function of two arguments. -/
def applyTwo (x y : Number) : BuiltIn → Option Number
  | .pow => x.pow y
  | .root => x.root y
  | _ => none

/-- The value of a built-in function, if it has as many arguments as it takes. -/
def apply (function : BuiltIn) : List Number → Option Number
  | [x] => function.applyOne x
  | [x, y] => function.applyTwo x y
  | _ => none

/-- A built-in function has a value exactly on lists of as many arguments as it takes. -/
theorem isSome_apply (function : BuiltIn) (arguments : List Number) :
    (function.apply arguments).isSome = true ↔ arguments.length = function.arity := by
  match arguments with
  | [] => cases function <;> simp [apply, arity]
  | [_] => cases function <;> simp [apply, applyOne, arity]
  | [_, _] => cases function <;> simp [apply, applyTwo, arity]
  | _ :: _ :: _ :: _ => cases function <;> simp [apply, arity]

end BuiltIn

/-- The built-in constants: the circle constant, the base of the natural logarithm and the
imaginary unit. -/
def builtInConstants : List (String × Number) :=
  [("pi", .real Binary64.pi), ("e", .real Binary64.e), ("i", .complex ⟨0, 1⟩)]

/-- The value of a built-in constant. -/
def builtInConstant? (name : String) : Option Number := builtInConstants.lookup name

end Reckoner
