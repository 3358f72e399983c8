import Reckoner.Context.Enter
import Reckoner.Json.Basic
/-!
# Contexts as documents

A document holds the constants of the user by their values and the functions by their definitions
and parameters. Loading it starts from an empty context: constants are checked and taken over, and
definitions are entered again. A definition that is refused is tried again after the others, since
definitions may use functions that come later in the document. Loading fails when a round of tries
defines nothing.
-/

namespace Reckoner

/-- Why a document cannot be saved or loaded. -/
inductive DocumentError where
  /-- A file cannot be opened for reading. -/
  | unreadable (path : String)
  /-- A file cannot be opened for writing. -/
  | unwritable (path : String)
  /-- A file that has been opened cannot be written. -/
  | unwritten (path : String)
  /-- The text is not JSON, with the report of the library. -/
  | malformed (report : String)
  /-- A member is missing. -/
  | missing (name : String)
  /-- A value has the wrong type. -/
  | wrongType (name expected : String)
  /-- A value has the right type and is not allowed. -/
  | wrongValue (value : String)
  /-- A definition is refused. -/
  | refused (rejection : Rejection)
  deriving DecidableEq, Repr

/-- The message of a document error. -/
def DocumentError.message (error : DocumentError) : String :=
  untilNul <|
    match error with
    | unreadable path => "Error: Could not open file " ++ quoted path ++ "."
    | unwritable path => "Error: Could not open file " ++ quoted path ++ " for writing."
    | unwritten path => "Error: Could not write file " ++ quoted path ++ "."
    | malformed report => "Error: Deserialization failed due to the following error:\n" ++ report
    | missing name => "Error: Missing value: " ++ quoted name ++ "."
    | wrongType name expected =>
      "Error: Wrong value type found for " ++ quoted name ++ ". Expected: " ++ quoted expected
    | wrongValue value => "Error: Wrong value found: " ++ quoted value ++ "."
    | refused rejection => rejection.message

namespace Document

/-- The entry of a constant. -/
def ofNumber (number : Number) : Json :=
  .ofMembers
    [("type", .string (if number.isReal then "Real" else "Complex")),
      ("re", .number number.re), ("im", .number number.im)]

/-- The entry of a function. -/
def ofFunction (function : UserFunction) : Json :=
  .ofMembers
    [("definition", .string function.definition),
      ("args", .array (function.parameters.map .string))]

/-- The document of a context. -/
def ofContext (context : Context) : Json :=
  .ofMembers
    [("constants", .ofMembers (context.constants.entries.map fun entry =>
        (entry.1, ofNumber entry.2))),
      ("functions", .ofMembers (context.functions.entries.map fun entry =>
        (entry.1, ofFunction entry.2)))]

/-- The members of the value under a name. -/
def objectOf (name : String) (value : Json) : Except DocumentError (List (String × Json)) :=
  match value.members? with
  | some members => .ok members
  | none => .error (.wrongType name "object")

/-- The member of a name in the value that is known as `owner`. -/
def member (owner : Option String) (members : List (String × Json)) (name : String) :
    Except DocumentError Json :=
  match members.lookup name, owner with
  | some value, _ => .ok value
  | none, some owner => .error (.missing (owner ++ "." ++ name))
  | none, none => .error (.missing name)

/-- A value of a certain type. -/
def typed {α : Type} (name expected : String) : Option α → Except DocumentError α
  | some value => .ok value
  | none => .error (.wrongType name expected)

/-- The constant of an entry. The imaginary part of a real one is not taken over. -/
def toNumber (name : String) (entry : Json) : Except DocumentError Number := do
  let members ← objectOf name entry
  let kind ← member name members "type"
  let re ← member name members "re"
  let im ← member name members "im"
  let kind ← typed (name ++ ".type") "string" kind.text?
  let re ← typed (name ++ ".re") "number" re.number?
  let im ← typed (name ++ ".im") "number" im.number?
  match kind with
  | "Real" => .ok (.real re)
  | "Complex" => .ok (.complex ⟨re, im⟩)
  | _ => .error (.wrongValue kind)

/-- The context with the constant of an entry. -/
def addConstant (context : Context) (entry : String × Json) : Except DocumentError Context := do
  let (name, value) := entry
  if !isName name || (builtInConstant? name).isSome || (BuiltIn.ofName? name).isSome then
    .error (.wrongValue name)
  return context.defineConstant name (← toNumber name value)

/-- A function as a document describes it. -/
structure FunctionEntry where
  /-- The name of the entry. -/
  name : String
  /-- The definition. -/
  definition : String
  /-- The names of the parameters. -/
  parameters : List String
  deriving DecidableEq, Repr

/-- The description of a function in an entry. -/
def toFunctionEntry (entry : String × Json) : Except DocumentError FunctionEntry := do
  let (name, value) := entry
  let members ← objectOf name value
  let definition ← member name members "definition"
  let parameters ← member name members "args"
  let definition ← typed (name ++ ".definition") "string" definition.text?
  let parameters ← typed (name ++ ".args") "array" parameters.elements?
  let parameters ← parameters.mapM fun parameter =>
    typed (name ++ ".args") "array of strings" parameter.text?
  return ⟨name, definition, parameters⟩

/-- The definition of an entry has been entered as `outcome`, and now the context has a function of
the name and the parameters of the entry. -/
def FunctionEntry.metBy (entry : FunctionEntry) (context : Context) : Outcome → Bool
  | .value _ => false
  | .defined =>
    (context.functions.find? entry.name).any fun function =>
      function.parameters == entry.parameters

/-- One round of tries: the context with the definitions that were accepted, and the entries that
were refused. An accepted definition has to meet its entry. -/
def defineRound (context : Context) :
    List FunctionEntry → Except DocumentError (Context × List (FunctionEntry × Rejection))
  | [] => .ok (context, [])
  | entry :: others =>
    match context.enter entry.definition with
    | .error rejection => do
      let (context, refused) ← defineRound context others
      return (context, (entry, rejection) :: refused)
    | .ok (context, outcome) =>
      if entry.metBy context outcome then defineRound context others
      else .error (.wrongValue entry.definition)

/-- The context with the functions of some entries, tried in rounds as long as every round defines
one of them. -/
def defineAll (context : Context) (pending : List FunctionEntry) :
    Except DocumentError Context := do
  let (context, refused) ← defineRound context pending
  if refused.length < pending.length then
    defineAll context (refused.map (·.1))
  else
    match refused.getLast? with
    | none => return context
    | some (_, rejection) => .error (.refused rejection)
termination_by pending.length
decreasing_by simpa

/-- The context that a document describes. -/
def toContext (document : Json) : Except DocumentError Context := do
  let root ← objectOf "root" document
  let constants ← member none root "constants"
  let functions ← member none root "functions"
  let constants ← objectOf "constants" constants
  let functions ← objectOf "functions" functions
  let context ← constants.foldlM addConstant {}
  let entries ← functions.mapM toFunctionEntry
  defineAll context entries

/-- Why a text is not loaded. -/
inductive LoadError where
  /-- The text or its document is refused. -/
  | refused (error : DocumentError)
  /-- The library gives up on the text. -/
  | aborted (report : String)

/-- The context that the text of a document describes. -/
def load (library : Json.Library) (text : String) : Except LoadError Context :=
  match library.read text with
  | .document document => (toContext document).mapError .refused
  | .refused report => .error (.refused (.malformed report))
  | .aborted report => .error (.aborted report)

/-- The text of the document of a context. -/
def save (library : Json.Library) (context : Context) : String := library.write (ofContext context)

end Document

end Reckoner
