import Reckoner.Number.Basic
import Reckoner.Symbol.Name
import Reckoner.Symbol.Operator
/-!
# Expressions

The tree of an expression or a definition. Names carry the origin they had when the line was read,
and every node carries the position of its token in the line, which is the byte that reports point
at. An argument that has been evaluated stands in a function body as a value.
-/

namespace Reckoner

/-- The tree of a line. -/
inductive Expr where
  /-- A literal as it is spelled, without its imaginary unit. -/
  | number (spelling : String) (imaginary : Bool) (position : Nat)
  /-- A name without an argument list. -/
  | constant (origin : Origin) (name : String) (position : Nat)
  /-- A call of a function. -/
  | call (origin : Origin) (name : String) (position : Nat) (arguments : List Expr)
  /-- An operand with a sign. -/
  | signed (sign : Sign) (position : Nat) (operand : Expr)
  /-- Two operands with an operator between them. -/
  | binary (operator : Operator) (position : Nat) (left right : Expr)
  /-- The value of an evaluated argument. -/
  | value (known : Number)

namespace Expr

instance : Inhabited Expr := ⟨.value default⟩

/-- The position of the token at the root. -/
def position : Expr → Nat
  | number _ _ position => position
  | constant _ _ position => position
  | call _ _ position _ => position
  | signed _ position _ => position
  | binary _ position _ _ => position
  | value _ => 0

/-- The text of the token at the root. An evaluated argument has no text and shows as a mark. -/
def rootText : Expr → String
  | number spelling _ _ => spelling
  | constant _ name _ => name
  | call _ name _ _ => name
  | signed sign _ _ => sign.text
  | binary operator _ _ _ => operator.text
  | value _ => "#"

mutual

/-- The tree in parentheses: an operator or a called name is followed by its operands. -/
def listing : Expr → String
  | number spelling imaginary _ => if imaginary then spelling ++ "i" else spelling
  | constant _ name _ => name
  | call _ name _ arguments => "(" ++ name ++ listings arguments ++ ")"
  | signed sign _ operand => "(" ++ sign.text ++ " " ++ listing operand ++ ")"
  | binary operator _ left right =>
    "(" ++ operator.text ++ " " ++ listing left ++ " " ++ listing right ++ ")"
  | value _ => "#"

/-- The listings of several trees, each behind a space. -/
def listings : List Expr → String
  | [] => ""
  | first :: others => " " ++ listing first ++ listings others

end

mutual

/-- The tree with the constants that `bindings` names replaced by the trees bound to them. The
replacements are not searched in turn. -/
def substitute (bindings : List (String × Expr)) : Expr → Expr
  | number spelling imaginary position => number spelling imaginary position
  | constant origin name position =>
    (bindings.lookup name).getD (constant origin name position)
  | call origin name position arguments =>
    call origin name position (substituteAll bindings arguments)
  | signed sign position operand => signed sign position (substitute bindings operand)
  | binary operator position left right =>
    binary operator position (substitute bindings left) (substitute bindings right)
  | value known => value known

/-- Substitution in several trees. -/
def substituteAll (bindings : List (String × Expr)) : List Expr → List Expr
  | [] => []
  | first :: others => substitute bindings first :: substituteAll bindings others

end

mutual

/-- The names of the user functions that are called anywhere in the tree, in the order of the
line. -/
def callees : Expr → List String
  | number .. => []
  | constant .. => []
  | call .user name _ arguments => name :: calleesAll arguments
  | call _ _ _ arguments => calleesAll arguments
  | signed _ _ operand => callees operand
  | binary _ _ left right => callees left ++ callees right
  | value _ => []

/-- The names of the user functions called in several trees. -/
def calleesAll : List Expr → List String
  | [] => []
  | first :: others => callees first ++ calleesAll others

end

end Expr

end Reckoner
