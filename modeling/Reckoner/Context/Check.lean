import Reckoner.Context.Calls
import Reckoner.Diagnosis
/-!
# Checking the names of a tree

An expression may use the constants and functions of the context, with as many arguments as they
take, and no definition may stand inside it. A definition has a new or user defined name on its left
side, with distinct names that are no built-in constants as parameters if it is a function. Its
right side is an expression that may use the parameters as well, and a function may not call itself
through the functions of the context.

A tree is searched in the order of the line, so the first offence of the line is the one reported.
-/

namespace Reckoner.Context

/-- A call must be of a known function and have as many arguments as the function takes. -/
def checkCall (context : Context) (defining : Bool) (origin : Origin) (name : String)
    (position count : Nat) : Except Diagnosis Unit :=
  match origin with
  | .unknown =>
    .error ⟨if defining then .symbolic name else .unknownFunction name, position⟩
  | _ =>
    let expected := (context.arity? name).getD 0
    if count = expected then .ok () else .error ⟨.wrongArity expected count, position⟩

/-- A constant must be known or be a parameter. -/
def checkConstant (parameters : Option (List String)) (origin : Origin) (name : String)
    (position : Nat) : Except Diagnosis Unit :=
  match origin, parameters with
  | .unknown, some parameters =>
    if name ∈ parameters then .ok () else .error ⟨.symbolic name, position⟩
  | .unknown, none => .error ⟨.unknownConstant name, position⟩
  | _, _ => .ok ()

mutual

/-- The first offence of an expression. On the right side of a definition `parameters` holds the
names of its parameters. -/
def checkNames (context : Context) (parameters : Option (List String)) :
    Expr → Except Diagnosis Unit
  | .number .. => .ok ()
  | .constant origin name position => checkConstant parameters origin name position
  | .call origin name position arguments => do
    checkCall context parameters.isSome origin name position arguments.length
    checkAllNames context parameters arguments
  | .signed _ _ operand => checkNames context parameters operand
  | .binary operator position left right => do
    checkNames context parameters left
    if operator = .assign then .error ⟨.nestedAssignment, position⟩
    checkNames context parameters right
  | .value _ => .ok ()

/-- The first offence of several expressions. -/
def checkAllNames (context : Context) (parameters : Option (List String)) :
    List Expr → Except Diagnosis Unit
  | [] => .ok ()
  | first :: others => do
    checkNames context parameters first
    checkAllNames context parameters others

end

mutual

/-- The first call of a user function that leads to `target`. -/
def firstCallTo? (context : Context) (target : String) : Expr → Option (String × Nat)
  | .call origin name position arguments =>
    if origin = .user ∧ context.leadsTo name target then some (name, position)
    else firstCallAmong? context target arguments
  | .signed _ _ operand => firstCallTo? context target operand
  | .binary _ _ left right =>
    (firstCallTo? context target left).or (firstCallTo? context target right)
  | _ => none

/-- The first such call in several trees. -/
def firstCallAmong? (context : Context) (target : String) : List Expr → Option (String × Nat)
  | [] => none
  | first :: others =>
    (firstCallTo? context target first).or (firstCallAmong? context target others)

end

/-- The name of a parameter. -/
def parameterName : Expr → Except Diagnosis String
  | .constant .builtIn name position => .error ⟨.builtInParameter name, position⟩
  | .constant _ name _ => .ok name
  | other => .error ⟨.badParameter other.rootText, other.position⟩

/-- The names of the parameters of a definition, which are distinct. -/
def parameterNames (parameters : List Expr) : Except Diagnosis (List String) := do
  let names ← parameters.mapM parameterName
  if names.Nodup then .ok names else .error ⟨.equalParameters, 0⟩

/-- The first offence of a definition. -/
def checkDefinition (context : Context) (left right : Expr) : Except Diagnosis Unit :=
  match left with
  | .constant .builtIn name position => .error ⟨.builtInTarget name, position⟩
  | .call .builtIn name position _ => .error ⟨.builtInTarget name, position⟩
  | .constant .. => checkNames context (some []) right
  | .call _ name _ parameters => do
    let names ← parameterNames parameters
    checkNames context (some names) right
    match firstCallTo? context name right with
    | some (callee, position) => .error ⟨.recursive callee, position⟩
    | none => .ok ()
  | .binary .assign position _ _ => .error ⟨.nestedAssignment, position⟩
  | other => .error ⟨.badTarget other.rootText, other.position⟩

/-- The first offence of the tree of a line. -/
def check (context : Context) : Expr → Except Diagnosis Unit
  | .binary .assign _ left right => checkDefinition context left right
  | expr => checkNames context none expr

end Reckoner.Context
