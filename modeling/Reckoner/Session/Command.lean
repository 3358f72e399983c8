import Reckoner.Session.Settings
/-!
# Commands

A line is a command if its first word is the name of one, unless the second word starts like the
rest of a definition or of a call: then the line belongs to the calculator. Words are separated by
white space.
-/

namespace Reckoner

/-- The commands without their arguments. -/
inductive Verb where
  | exit | save | load | format | info | remove
  deriving DecidableEq, Repr

namespace Verb

/-- The name of a command. -/
def name : Verb → String
  | .exit => "exit"
  | .save => "save"
  | .load => "load"
  | .format => "format"
  | .info => "info"
  | .remove => "remove"

/-- The command of a name. -/
def ofName? : String → Option Verb
  | "exit" => some .exit
  | "save" => some .save
  | "load" => some .load
  | "format" => some .format
  | "info" => some .info
  | "remove" => some .remove
  | _ => none

/-- The least and the greatest number of arguments. -/
def argumentRange : Verb → Nat × Nat
  | .exit | .info => (0, 0)
  | .save | .load => (0, 1)
  | .format => (1, 2)
  | .remove => (1, 1)

end Verb

/-- A command with checked arguments. -/
inductive Command where
  /-- End the session. -/
  | exit
  /-- Save the context. -/
  | save (path : Option String)
  /-- Load a context. -/
  | load (path : Option String)
  /-- Change how numbers are shown. -/
  | format (radix : Radix) (precision : Option Precision)
  /-- Show the definitions of the user. -/
  | info
  /-- Remove a definition of the user. -/
  | remove (name : String)
  deriving DecidableEq, Repr

/-- Why a command is refused. -/
inductive CommandError where
  /-- The number of arguments is out of range. -/
  | argumentCount (verb : Verb) (found : Nat)
  /-- There is no such form of numbers. -/
  | unknownFormat (text : String)
  /-- The precision of a format is refused. -/
  | settings (error : SettingsError)
  /-- The user has not defined the name that is to be removed. -/
  | notDefined (name : String)
  deriving DecidableEq, Repr

/-- The message of a command error. -/
def CommandError.message (error : CommandError) : String :=
  untilNul <|
    match error with
    | argumentCount verb found =>
      let (least, greatest) := verb.argumentRange
      let range :=
        if greatest = least then toString least
        else toString least ++ " to " ++ toString greatest
      "Error: Command " ++ quoted verb.name ++ " expects " ++ range ++ " argument(s), got " ++
        toString found ++ "."
    | unknownFormat text =>
      "Error: Unknown format " ++ quoted text ++ ". Expected dec, bin, oct, hex or exp."
    | settings error => "Error: " ++ error.message ++ "."
    | notDefined name =>
      "Error: No user defined constant or function " ++ quoted name ++ "."

/-- The words of a line. -/
def words (line : String) : List String :=
  ((line.toList.splitOnP isBlank).filter fun word => !word.isEmpty).map String.ofList

/-- A command with the arguments as they were typed. -/
structure Invocation where
  /-- The command. -/
  verb : Verb
  /-- The words behind the name of the command. -/
  arguments : List String
  deriving DecidableEq, Repr

namespace Invocation

/-- A word that continues a definition or a call. -/
def continuesInput (word : String) : Bool :=
  match word.toList with
  | '=' :: _ => true
  | '(' :: _ => true
  | _ => false

/-- The command of a line, if it is one. -/
def ofLine? (line : String) : Option Invocation :=
  match words line with
  | [] => none
  | first :: arguments =>
    if (arguments.head?.any continuesInput) then none
    else (Verb.ofName? first).map fun verb => ⟨verb, arguments⟩

/-- The command with its arguments checked. -/
def command (invocation : Invocation) : Except CommandError Command :=
  match invocation.verb, invocation.arguments with
  | .exit, [] => .ok .exit
  | .save, [] => .ok (.save none)
  | .save, [path] => .ok (.save path)
  | .load, [] => .ok (.load none)
  | .load, [path] => .ok (.load path)
  | .info, [] => .ok .info
  | .remove, [name] => .ok (.remove name)
  | .format, [radix] => do
    return .format (← formOf radix) none
  | .format, [radix, precision] => do
    let radix ← formOf radix
    let precision ← (Precision.ofText precision).mapError .settings
    return .format radix precision
  | verb, arguments => .error (.argumentCount verb arguments.length)
where
  /-- The form of numbers of a name. -/
  formOf (text : String) : Except CommandError Radix :=
    match Radix.ofName? text with
    | some radix => .ok radix
    | none => .error (.unknownFormat text)

end Invocation

end Reckoner
