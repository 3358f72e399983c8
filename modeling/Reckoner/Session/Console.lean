import Reckoner.Session.Basic
/-!
# The console

The program either works off the inputs among its arguments and shows their values together at the
end, or it prompts for lines and answers each of them. In the first way it stops at the first input
that fails, in the second it reports the failure and goes on. A context that cannot be saved or
loaded is reported as a warning. In either way the program ends at once, without a report, when the
library for JSON gives up.

A console is given by what it can do, so that the same program runs on a terminal and on recorded
input.
-/

namespace Reckoner

/-- What a program does beyond computing. -/
structure Console (m : Type → Type) where
  /-- Read and write JSON. -/
  library : Json.Library
  /-- Carry out a task with a file. -/
  perform : FileTask Session.Result → m Session.Result
  /-- Write a text. -/
  print : String → m Unit
  /-- Write a line to the log. -/
  log : String → m Unit
  /-- End the program with an exception. -/
  abort : String → m Unit

namespace Console

variable {m : Type → Type} [Monad m]

/-- Report a failure below a heading, which is empty for lines that were prompted for. -/
def report (console : Console m) (heading : String) : Failure → m Unit
  | .document error => do
    console.print heading
    console.log ("[warning] " ++ error.message)
  | .aborted report => console.abort report
  | failure => console.print (heading ++ failure.message ++ "\n")

/-- Show the text of a command, if there is one. -/
def showText (console : Console m) (text : String) : m Unit :=
  if text.isEmpty then pure () else console.print (text ++ "\n")

/-- The values and the session that some inputs lead to, and whether all of them succeeded.
`number` is that of the first of them. Nothing is done behind a failure or when the session has
ended. -/
def runInputs (console : Console m) (session : Session) (number : Nat) :
    List String → m (List Number × Session × Bool)
  | [] => pure ([], session, true)
  | input :: others => do
    if session.finished then return ([], session, true)
    match ← console.perform (session.enter console.library input) with
    | .error failure =>
      console.report ("In input " ++ toString number ++ ":\n") failure
      return ([], session, false)
    | .ok (session, .shown text) =>
      console.showText text
      console.runInputs session (number + 1) others
    | .ok (session, .outcome .defined) => console.runInputs session (number + 1) others
    | .ok (session, .outcome (.value value)) =>
      let (values, session, success) ← console.runInputs session (number + 1) others
      return (value :: values, session, success)

/-- Work off inputs, and show their values in one line. The status tells whether one failed. -/
def call (console : Console m) (session : Session) (inputs : List String) :
    m (UInt8 × Session) := do
  let (values, session, success) ← console.runInputs session 1 inputs
  if !values.isEmpty then
    let shown := values.map session.settings.format.number
    console.print ("; ".intercalate shown ++ "\n")
  return (if success then 0 else 1, session)

/-- The text in front of a line that is typed. -/
def prompt (console : Console m) : m Unit := console.print ">>> "

/-- A line without anything to carry out. -/
def isIdle (line : String) : Bool := line.toList.all fun c => c == ' ' || c == '\t' || c == '\r'

/-- Answer a line. -/
def answer (console : Console m) (session : Session) (line : String) : m Session := do
  if isIdle line then return session
  match ← console.perform (session.enter console.library line) with
  | .error failure =>
    console.report "" failure
    return session
  | .ok (session, .shown text) =>
    console.showText text
    return session
  | .ok (session, .outcome .defined) => return session
  | .ok (session, .outcome (.value value)) =>
    console.print ("ans: " ++ session.settings.format.number value ++ "\n")
    return session

/-- Prompt for lines and answer them until there are no more or the session ends. -/
def interact (console : Console m) (session : Session) : List String → m Session
  | [] => do
    if !session.finished then console.prompt
    return session
  | line :: others => do
    if session.finished then return session
    console.prompt
    console.interact (← console.answer session line) others

/-- The start of the program: the settings and inputs, or the status it ends with at once. -/
def start (console : Console m) (environment : Option String) (arguments : List String) :
    m (Except UInt8 (Session × List String)) := do
  match Settings.ofArguments environment arguments with
  | .error error =>
    console.log ("[error] " ++ error.message)
    return .error 2
  | .ok (settings, inputs) => return .ok ({ settings := settings }, inputs)

/-- The program on lines that are typed ahead. -/
def program (console : Console m) (environment : Option String) (arguments lines : List String) :
    m UInt8 := do
  match ← console.start environment arguments with
  | .error status => return status
  | .ok (session, []) =>
    let _ ← console.interact session lines
    return 0
  | .ok (session, inputs) => return (← console.call session inputs).1

end Console

/-- What a program runs on: a library for JSON, and a file system with states in `σ`. -/
structure Host (σ : Type) where
  /-- The library for JSON. -/
  json : Json.Library
  /-- The file system. -/
  system : FileSystem σ

/-- What a recorded console has taken in and given out. -/
structure Recording (σ : Type) where
  /-- The state of the files. -/
  files : σ
  /-- The text that was written. -/
  output : String := ""
  /-- The lines of the log. -/
  log : List String := []

/-- A program whose doings are recorded, and which may end with an exception. -/
abbrev Recorded (σ : Type) := ExceptT String (StateM (Recording σ))

/-- What a program returns or throws behind a recording, and the recording then. -/
def Recorded.on {σ α : Type} (program : Recorded σ α) (recording : Recording σ) :
    Except String α × Recording σ :=
  program.run.run recording

/-- The console that records what it does. -/
def Console.recorded {σ : Type} (host : Host σ) : Console (Recorded σ) where
  library := host.json
  perform task := modifyGet fun recording =>
    let (result, files) := host.system.perform recording.files task
    (result, { recording with files := files })
  print text := modify fun recording => { recording with output := recording.output ++ text }
  log line := modify fun recording => { recording with log := recording.log ++ [line] }
  abort report := throw report

/-- The lines of a text. The end of the text ends a line that is not empty. -/
def linesOf (text : String) : List String :=
  let lines := (text.toList.splitOn '\n').map String.ofList
  if lines.getLast? = some "" then lines.dropLast else lines

end Reckoner
