import Reckoner.Context.Basic
/-!
# Evaluating expressions

The arguments of a call are evaluated once, and their values take the place of the parameters in
the body of the function. Evaluation has no value where a name is not resolved; arithmetic alone
never stops it. Since a function does not lead back to itself, calls are nested at most as deeply
as there are functions, and this bound on the depth makes evaluation end in every context.
-/

namespace Reckoner

/-- The value of a literal; an imaginary one has the real part zero. -/
def literalValue (spelling : String) (imaginary : Bool) : Number :=
  let value := Literal.value spelling.toList
  if imaginary then .complex ⟨0, value⟩ else .real value

/-- The value of an operand with a sign. -/
def Sign.apply : Sign → Number → Number
  | .plus, a => a
  | .minus, a => a.neg

/-- The value of two operands with an operator. An assignment has none. -/
def Operator.apply : Operator → Number → Number → Option Number
  | .assign, _, _ => none
  | .add, a, b => a.add b
  | .sub, a, b => a.sub b
  | .mul, a, b => a.mul b
  | .div, a, b => a.div b
  | .mod, a, b => a.mod b
  | .pow, a, b => a.pow b

namespace Expr

mutual

/-- The value of a tree, given those of constants and of calls of user functions. -/
def evalWith (constant? : String → Option Number)
    (userCall : String → List Number → Option Number) : Expr → Option Number
  | number spelling imaginary _ => literalValue spelling imaginary
  | constant .unknown _ _ => none
  | constant _ name _ => constant? name
  | call .unknown _ _ _ => none
  | call .builtIn name _ arguments =>
    (BuiltIn.ofName? name).bind fun function =>
      (evalAllWith constant? userCall arguments).bind function.apply
  | call .user name _ arguments =>
    (evalAllWith constant? userCall arguments).bind (userCall name)
  | signed sign _ operand => (evalWith constant? userCall operand).map sign.apply
  | binary operator _ left right =>
    (evalWith constant? userCall left).bind fun a =>
      (evalWith constant? userCall right).bind fun b => operator.apply a b
  | value known => known

/-- The values of several trees, if all of them have one. -/
def evalAllWith (constant? : String → Option Number)
    (userCall : String → List Number → Option Number) : List Expr → Option (List Number)
  | [] => some []
  | first :: others =>
    (evalWith constant? userCall first).bind fun a =>
      (evalAllWith constant? userCall others).map (a :: ·)

end

end Expr

namespace Context

/-- The value of a call of a user function, where calls nest at most `depth` deep. -/
def callWithin (context : Context) : Nat → String → List Number → Option Number
  | 0, _, _ => none
  | depth + 1, name, arguments =>
    (context.expand? name (arguments.map .value)).bind
      (Expr.evalWith context.constant? (context.callWithin depth))

/-- The value of a tree, if all its names are resolved. -/
def eval? (context : Context) (expr : Expr) : Option Number :=
  expr.evalWith context.constant? (context.callWithin context.functions.size)

/-- The value of a tree, undefined if a name is not resolved. -/
def evaluate (context : Context) (expr : Expr) : Number :=
  (context.eval? expr).getD .undefined

end Context

end Reckoner
