import Reckoner.Context.Evaluate
import Reckoner.Context.Parse
/-!
# Entering a line

An expression is evaluated, and its value becomes the constant `ans` unless the user has a function
of that name. A definition is applied to the context. A refused line leaves the context as it is.
-/

namespace Reckoner

/-- What a line comes to. -/
inductive Outcome where
  /-- The value of an expression. -/
  | value (number : Number)
  /-- A definition has been applied. -/
  | defined

/-- A character that is cut off at the ends of a definition that is stored. -/
def isMargin (c : Char) : Bool := c == ' ' || c == '\t' || c == '\r' || c == '\n'

/-- The text without the margins at its ends. -/
def trimMargins (text : String) : String :=
  let leading := text.toList.dropWhile isMargin
  String.ofList (leading.reverse.dropWhile isMargin).reverse

namespace Context

/-- The name of the constant that holds the last value. -/
def answerName : String := "ans"

/-- Keep the value of an expression for later lines. -/
def keepAnswer (context : Context) (value : Number) : Context :=
  if context.functions.contains answerName then context
  else context.defineConstant answerName value

/-- The context after a checked definition that was typed as `line`. -/
def applyDefinition (context : Context) (line : String) (left right : Expr) : Context :=
  match left with
  | .constant _ name _ => context.defineConstant name (context.evaluate right)
  | .call _ name _ parameters =>
    context.defineFunction name
      ⟨parameters.map Expr.rootText, right, trimMargins line⟩
  | _ => context

/-- Parse and carry out a line. -/
def enter (context : Context) (line : String) : Except Rejection (Context × Outcome) := do
  match ← context.parse line with
  | .binary .assign _ left right => return (context.applyDefinition line left right, .defined)
  | expr =>
    let value := context.evaluate expr
    return (context.keepAnswer value, .value value)

end Context

end Reckoner
