import Reckoner.Diagnosis
import Reckoner.Numeral.Format
import Reckoner.Symbol.Name
/-!
# Settings and program arguments

The settings of a session come from the environment, which may name the file of the context, and
from the options of the program. Options win over the environment, and later options over earlier
ones. Every argument that is no option is an input.
-/

namespace Reckoner

/-- The settings of a session. -/
structure Settings where
  /-- How numbers are shown. -/
  format : Format := {}
  /-- The file that a context is saved to and loaded from if no other one is named. -/
  contextPath : String := "termcalc_context.json"
  /-- Messages for tracing are written as well. -/
  verbose : Bool := false
  deriving DecidableEq

instance : Inhabited Settings := ⟨{}⟩

/-- Why the arguments of the program are refused. -/
inductive SettingsError where
  /-- An option stands at the end without its value. -/
  | missingValue (option : String)
  /-- The value is no name of a form of numbers. -/
  | unknownFormat (text : String)
  /-- The value is no precision. -/
  | badPrecision (text : String)
  /-- There is no such option. -/
  | unknownOption (option : String)
  deriving DecidableEq, Repr

/-- The message of an error in the arguments. -/
def SettingsError.message (error : SettingsError) : String :=
  untilNul <|
    match error with
    | missingValue option => "Missing value for " ++ option
    | unknownFormat text => "Unknown format: " ++ quoted text
    | badPrecision text => "Invalid precision: " ++ quoted text
    | unknownOption option => "Unknown option: " ++ option

/-- The whole number that a text consists of, behind white space and with an optional sign. -/
def wholeNumber? (text : List Char) : Option Int :=
  let (negative, digits) :=
    match text.dropWhile isBlank with
    | '-' :: digits => (true, digits)
    | '+' :: digits => (false, digits)
    | digits => (false, digits)
  if !digits.isEmpty && digits.all Char.isDigit then
    let magnitude := numberOf 10 digits
    some (if negative then -(magnitude : Int) else magnitude)
  else none

/-- The precision that a text stands for. -/
def Precision.ofText (text : String) : Except SettingsError Precision :=
  match wholeNumber? text.toList with
  | some (.ofNat digits) =>
    match Precision.ofNat? digits with
    | some precision => .ok precision
    | none => .error (.badPrecision text)
  | _ => .error (.badPrecision text)

namespace Settings

/-- An argument is an option if it starts with two hyphens and goes on. -/
def isOption (argument : String) : Bool :=
  match argument.toList with
  | '-' :: '-' :: _ :: _ => true
  | _ => false

/-- The settings with the options among some arguments applied, and the other arguments in their
order. -/
def apply (settings : Settings) : List String → Except SettingsError (Settings × List String)
  | [] => .ok (settings, [])
  | "--context" :: path :: others => apply { settings with contextPath := path } others
  | "--format" :: text :: others =>
    match Radix.ofName? text with
    | some radix =>
      apply { settings with format := { settings.format with radix := radix } } others
    | none => .error (.unknownFormat text)
  | "--precision" :: text :: others =>
    match Precision.ofText text with
    | .ok precision =>
      apply { settings with format := { settings.format with precision := precision } } others
    | .error error => .error error
  | "--verbose" :: others => apply { settings with verbose := true } others
  | argument :: others =>
    if argument ∈ ["--context", "--format", "--precision"] then .error (.missingValue argument)
    else if isOption argument then .error (.unknownOption argument)
    else do
      let (settings, inputs) ← apply settings others
      return (settings, argument :: inputs)

/-- The environment variable that may name the file of the context. -/
def environmentVariable : String := "TERMCALC_CONTEXT"

/-- The settings and inputs of a program that is started with some arguments, where the environment
may name the file of the context. -/
def ofArguments (environment : Option String) (arguments : List String) :
    Except SettingsError (Settings × List String) :=
  let settings : Settings :=
    match environment with
    | none | some "" => {}
    | some path => { contextPath := path }
  settings.apply arguments

end Settings

end Reckoner
