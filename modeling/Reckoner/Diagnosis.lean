import Reckoner.Bytes
/-!
# What is wrong with a line

A fault names its cause, and a diagnosis adds the byte of the line that the report points at. The
wording is in one place: what was expected, the line, a marker under the byte, and what was found
instead. A line may have any bytes, and so may a report on it. A report ends in front of the first
NUL character, wherever the line brings one in.
-/

namespace Reckoner

/-- The text up to its first NUL character. -/
def untilNul (text : String) : String := String.ofList (text.toList.takeWhile (· != '\x00'))

/-- Why a line is refused. -/
inductive Fault where
  /-- A character that starts no token. -/
  | unknownCharacter
  /-- A run that starts like a number and is no literal. -/
  | brokenNumber (shown : String)
  /-- A further token was asked for behind the last one. -/
  | noFurtherToken
  /-- The line ends where an operand has to stand. -/
  | missingOperand
  /-- An operator that is no sign stands where an operand has to stand. -/
  | notASign (operator : String)
  /-- A punctuation mark stands where an operand has to stand. -/
  | misplaced (mark : String)
  /-- An argument list is closed behind a comma. -/
  | missingArgument
  /-- An argument is followed neither by a comma nor by the end of the list. -/
  | missingSeparator (found : String)
  /-- A certain mark has to stand where another token is found or the line ends. -/
  | missingMark (mark : String) (found : Option String)
  /-- A token follows the expression. -/
  | trailing (found : String)
  /-- The left side of a definition is a built-in name. -/
  | builtInTarget (name : String)
  /-- The left side of a definition is no name. -/
  | badTarget (found : String)
  /-- A definition stands inside an expression. -/
  | nestedAssignment
  /-- A parameter is a built-in constant. -/
  | builtInParameter (name : String)
  /-- A parameter is no name. -/
  | badParameter (found : String)
  /-- Two parameters have the same name. -/
  | equalParameters
  /-- A definition uses a name that is not defined. -/
  | symbolic (name : String)
  /-- An expression uses a constant that is not defined. -/
  | unknownConstant (name : String)
  /-- An expression uses a function that is not defined. -/
  | unknownFunction (name : String)
  /-- A function has another number of parameters than the call has arguments. -/
  | wrongArity (expected found : Nat)
  /-- A function is defined by way of itself. -/
  | recursive (name : String)
  deriving DecidableEq, Repr

/-- A fault and the byte of the line that it is reported at. -/
structure Diagnosis where
  /-- The cause. -/
  fault : Fault
  /-- The byte that the marker stands under. -/
  position : Nat
  deriving DecidableEq, Repr

/-- The line, and under it a marker at a byte. -/
def markedLine (line : Bytes) (position : Nat) : Bytes :=
  line ++ bytesOf ("\n" ++ String.ofList (List.replicate position ' ') ++ "^~~~")

/-- The report that something was expected, and perhaps what was found instead. -/
def expectationReport (line : Bytes) (expected : String) (found : Option String)
    (position : Nat) : Bytes :=
  bytesOf ("Error: Expected " ++ expected ++ ".\n") ++ markedLine line position ++
    bytesOf (match found with
      | some found => " Found: " ++ found
      | none => "")

/-- The text in quotation marks. -/
def quoted (text : String) : String := "\"" ++ text ++ "\""

namespace Fault

/-- What has to stand where an operand is missing. -/
def operandWanted : String :=
  "operand (number, constant, function call) or an unary operation"

/-- A number of arguments in words. -/
def argumentCount (count : Nat) : String := toString count ++ " argument(s)"

/-- What was expected and what was found instead. -/
def expectation : Fault → String × String
  | unknownCharacter => ("token", "unknown token")
  | brokenNumber shown => ("literal number", "invalid literal symbol(s) " ++ quoted shown)
  | noFurtherToken => ("further input", "end of input")
  | missingOperand => (operandWanted, "end of input")
  | notASign operator => ("unary operation", "non-unary operation " ++ quoted operator)
  | misplaced mark => (operandWanted, "unexpected symbol " ++ quoted mark)
  | missingArgument => ("an argument", "symbol \")\"")
  | missingSeparator found => ("\",\" or \")\"", quoted found)
  | missingMark mark none => ("symbol " ++ quoted mark, "end of input")
  | missingMark mark (some found) => ("symbol " ++ quoted mark, quoted found)
  | trailing found => ("end of input", quoted found)
  | builtInTarget name =>
    ("new constant name or function name", "built-in expression " ++ quoted name)
  | badTarget found => ("new constant name or function name", quoted found)
  | nestedAssignment => ("assignment only at top level", quoted "=")
  | builtInParameter name => ("argument name", "built-in expression " ++ quoted name)
  | badParameter found => ("argument name", quoted found)
  | equalParameters => ("distinct arguments", "function definition with partly equal arguments")
  | symbolic name => ("non-symbolic expression", "symbolic expression " ++ quoted name)
  | unknownConstant name =>
    ("built-in or user defined constant", "unknown constant " ++ quoted name)
  | unknownFunction name =>
    ("built-in or user defined function", "unknown function " ++ quoted (name ++ "(...)"))
  | wrongArity expected found => (argumentCount expected, argumentCount found)
  | recursive name => ("non-recursive function definition", "recursive call " ++ quoted name)

end Fault

namespace Diagnosis

/-- The character of the line that starts no token, if that is what is wrong. -/
def character (line : Bytes) (diagnosis : Diagnosis) : Bytes :=
  Bytes.character (line.drop diagnosis.position)

/-- The report on a line. A character that starts no token has a report of its own form. -/
def report (line : Bytes) (diagnosis : Diagnosis) : Bytes :=
  match diagnosis.fault with
  | .unknownCharacter =>
    bytesOf "Error: Unknown token found: \"" ++ diagnosis.character line ++ bytesOf "\".\n" ++
      markedLine line diagnosis.position
  | fault =>
    expectationReport line fault.expectation.1 (some fault.expectation.2) diagnosis.position

/-- The message on a line: its report up to the first NUL character. -/
def message (line : Bytes) (diagnosis : Diagnosis) : Bytes := (diagnosis.report line).untilZero

end Diagnosis

/-- A refused line with its diagnosis. -/
structure Rejection where
  /-- The line. -/
  line : String
  /-- What is wrong with it. -/
  diagnosis : Diagnosis
  deriving DecidableEq, Repr

/-- The message of a refused line. -/
def Rejection.message (rejection : Rejection) : String :=
  (rejection.diagnosis.message (bytesOf rejection.line)).text

end Reckoner
