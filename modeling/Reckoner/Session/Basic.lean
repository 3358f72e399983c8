import Reckoner.Context.Document
import Reckoner.Number.Format
import Reckoner.Session.Command
import Reckoner.Session.Files
/-!
# Sessions

A session is a context with settings, and it ends with the command that says so. A line is a
command or goes to the calculator. A line that fails leaves the session as it is.

A line may also break off because the library for JSON gives up on a file. Nothing takes care of
such an exception, so it is told apart from the failures that are reported.
-/

namespace Reckoner

/-- The state of a session. -/
structure Session where
  /-- The definitions of the user. -/
  context : Context := {}
  /-- The settings. -/
  settings : Settings := {}
  /-- The session is to end. -/
  finished : Bool := false

instance : Inhabited Session := ⟨{}⟩

/-- Why a line fails. -/
inductive Failure where
  /-- The calculator refuses the line. -/
  | rejected (rejection : Rejection)
  /-- A command is refused. -/
  | command (error : CommandError)
  /-- A context cannot be saved or loaded. -/
  | document (error : DocumentError)
  /-- The library for JSON gives up. This is not reported, it ends the program. -/
  | aborted (report : String)
  deriving DecidableEq, Repr

/-- The message of a failure. -/
def Failure.message : Failure → String
  | rejected rejection => rejection.message
  | command error => error.message
  | document error => error.message
  | aborted report => report

/-- What a line is answered with. -/
inductive Reply where
  /-- The text that a command shows, which may be empty. -/
  | shown (text : String)
  /-- What the calculator made of the line. -/
  | outcome (outcome : Outcome)

/-- The definitions of the user, one a line: constants with their values, and functions as they
were typed. -/
def Context.describe (context : Context) (format : Format) : String :=
  let constants := context.constants.entries.map fun entry =>
    entry.1 ++ " = " ++ format.number entry.2
  let functions := context.functions.entries.map fun entry => entry.2.definition
  match constants ++ functions with
  | [] => "No user defined constants or functions."
  | lines => "\n".intercalate lines

namespace Session

/-- The result of a line: the session after it and the reply, or the failure. -/
abbrev Result := Except Failure (Session × Reply)

/-- The settings with another form of numbers, and another precision if one is given. -/
def withFormat (session : Session) (radix : Radix) (precision : Option Precision) : Session :=
  let format := session.settings.format
  let format : Format := ⟨radix, precision.getD format.precision⟩
  { session with settings := { session.settings with format := format } }

/-- Carry out a command. -/
def run (session : Session) (library : Json.Library) : Command → FileTask Result
  | .exit => .done (.ok ({ session with finished := true }, .shown ""))
  | .save path =>
    let path := path.getD session.settings.contextPath
    .write path (Document.save library session.context ++ "\n") fun written =>
      match written with
      | .whole => .ok (session, .shown ("Saved context to " ++ quoted path ++ "."))
      | .unopened => .error (.document (.unwritable path))
      | .broken => .error (.document (.unwritten path))
  | .load path =>
    let path := path.getD session.settings.contextPath
    .read path fun text =>
      match text with
      | none => .error (.document (.unreadable path))
      | some text =>
        match Document.load library text with
        | .ok context =>
          .ok ({ session with context := context },
            .shown ("Loaded context from " ++ quoted path ++ "."))
        | .error (.refused error) => .error (.document error)
        | .error (.aborted report) => .error (.aborted report)
  | .format radix precision => .done (.ok (session.withFormat radix precision, .shown ""))
  | .info =>
    .done (.ok (session, .shown (session.context.describe session.settings.format)))
  | .remove name =>
    match session.context.remove? name with
    | some context => .done (.ok ({ session with context := context }, .shown ""))
    | none => .done (.error (.command (.notDefined name)))

/-- Give a line to the calculator. -/
def calculate (session : Session) (line : String) : Result :=
  match session.context.enter line with
  | .ok (context, outcome) => .ok ({ session with context := context }, .outcome outcome)
  | .error rejection => .error (.rejected rejection)

/-- Carry out a line. -/
def enter (session : Session) (library : Json.Library) (line : String) : FileTask Result :=
  match Invocation.ofLine? line with
  | none => .done (session.calculate line)
  | some invocation =>
    match invocation.command with
    | .ok command => session.run library command
    | .error error => .done (.error (.command error))

end Session

end Reckoner
