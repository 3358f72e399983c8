import Reckoner.Expr.Basic
import Reckoner.Symbol.BuiltIn
import Reckoner.Table
import Reckoner.Token.Basic
/-!
# Contexts

A context holds the constants and functions that the user has defined. The built-in ones are always
there and are looked up first. A name is a constant or a function of the user, never both: defining
it as the one removes the other.
-/

namespace Reckoner

/-- A function defined by the user. -/
structure UserFunction where
  /-- The names of the parameters in the order of a call. -/
  parameters : List String
  /-- The right side of the definition. -/
  body : Expr
  /-- The definition as it was typed. -/
  definition : String

/-- The constants and functions of the user. -/
structure Context where
  /-- The constants by name. -/
  constants : Table Number := .empty
  /-- The functions by name. -/
  functions : Table UserFunction := .empty

instance : Inhabited Context := ⟨{}⟩

namespace Context

/-- The value of a constant, built in or defined. -/
def constant? (context : Context) (name : String) : Option Number :=
  (builtInConstant? name).or (context.constants.find? name)

/-- The number of arguments of a function, built in or defined. -/
def arity? (context : Context) (name : String) : Option Nat :=
  match BuiltIn.ofName? name with
  | some function => some function.arity
  | none => (context.functions.find? name).map (·.parameters.length)

/-- Where a name stands among the constants. -/
def constantOrigin (context : Context) (name : String) : Origin :=
  if (builtInConstant? name).isSome then .builtIn
  else if context.constants.contains name then .user
  else .unknown

/-- Where a name stands among the functions. -/
def functionOrigin (context : Context) (name : String) : Origin :=
  if (BuiltIn.ofName? name).isSome then .builtIn
  else if context.functions.contains name then .user
  else .unknown

/-- Give a constant a value. A function of the same name is removed. -/
def defineConstant (context : Context) (name : String) (value : Number) : Context :=
  { constants := context.constants.insert name value
    functions := context.functions.erase name }

/-- Define a function. A constant of the same name is removed. -/
def defineFunction (context : Context) (name : String) (function : UserFunction) : Context :=
  { constants := context.constants.erase name
    functions := context.functions.insert name function }

/-- Remove a constant of the user. -/
def removeConstant (context : Context) (name : String) : Context :=
  { context with constants := context.constants.erase name }

/-- Remove a function of the user. -/
def removeFunction (context : Context) (name : String) : Context :=
  { context with functions := context.functions.erase name }

/-- Remove a name of the user, if it is defined. -/
def remove? (context : Context) (name : String) : Option Context :=
  if context.constants.contains name then some (context.removeConstant name)
  else if context.functions.contains name then some (context.removeFunction name)
  else none

/-- The body of a user function with its parameters replaced by as many arguments. -/
def expand? (context : Context) (name : String) (arguments : List Expr) : Option Expr :=
  match context.functions.find? name with
  | some function =>
    if function.parameters.length = arguments.length then
      some (function.body.substitute (function.parameters.zip arguments))
    else none
  | none => none

end Context

/-- The lexeme with the origin that its name has in a context. -/
def Lexeme.resolve (context : Context) : Lexeme → Lexeme
  | constant _ name => constant (context.constantOrigin name) name
  | function _ name => function (context.functionOrigin name) name
  | lexeme => lexeme

/-- The token with the origin that its name has in a context. -/
def Token.resolve (context : Context) (token : Token) : Token :=
  { token with lexeme := token.lexeme.resolve context }

end Reckoner
