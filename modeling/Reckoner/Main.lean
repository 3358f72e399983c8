import Reckoner.Session.Console
/-!
# The program

The console of a terminal: files are those of the disk, lines come from standard input as they are
typed, and the log goes to standard error. The library for JSON is handed to the program.
-/

namespace Reckoner

/-- Write a text to a file of the disk. -/
def writeToDisk (path text : String) : IO Written := do
  let handle? ← try some <$> IO.FS.Handle.mk path .write catch _ => pure none
  match handle? with
  | none => return .unopened
  | some handle =>
    try
      handle.putStr text
      handle.flush
      return .whole
    catch _ => return .broken

/-- Carry out a task with a file on the disk. -/
def performOnDisk {α : Type} : FileTask α → IO α
  | .done result => pure result
  | .read path next => do
    let text ← try some <$> IO.FS.readFile path catch _ => pure none
    return next text
  | .write path text next => return next (← writeToDisk path text)

/-- The console of a terminal. -/
def Console.terminal (library : Json.Library) : Console IO where
  library := library
  perform := performOnDisk
  print text := do
    IO.print text
    (← IO.getStdout).flush
  log := IO.eprintln
  abort report := throw (IO.userError report)

/-- Prompt for lines and answer them as they are typed. -/
partial def converse (console : Console IO) (session : Session) : IO Unit := do
  if session.finished then return
  console.prompt
  let line ← (← IO.getStdin).getLine
  if line.isEmpty then return
  let line := if line.endsWith "\n" then (line.dropEnd 1).toString else line
  converse console (← console.answer session line)

/-- Run the program with some arguments. -/
def runProgram (library : Json.Library) (arguments : List String) : IO UInt32 := do
  let console := Console.terminal library
  let environment ← IO.getEnv Settings.environmentVariable
  match ← console.start environment arguments with
  | .error status => return status.toUInt32
  | .ok (session, []) =>
    converse console session
    return 0
  | .ok (session, inputs) => return (← console.call session inputs).1.toUInt32

end Reckoner
