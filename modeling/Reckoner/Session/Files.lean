/-!
# Files

What a command does may depend on one file, which it reads or writes. Such a command is a task that
asks for the file and says how it goes on, so that it can be carried out on the disk as well as in
any other file system. Nothing is settled here about which files there are, and opening a file as
well as writing it may fail.
-/

namespace Reckoner

/-- What comes of writing a file. -/
inductive Written where
  /-- The text has been written. -/
  | whole
  /-- The file cannot be opened. -/
  | unopened
  /-- The file has been opened, and writing it has failed. -/
  | broken
  deriving DecidableEq, Repr

/-- A result that may need a file first. -/
inductive FileTask (α : Type) where
  /-- A result that needs no file. -/
  | done (result : α)
  /-- Read a file; there is no text if it cannot be opened. -/
  | read (path : String) (next : Option String → α)
  /-- Write a file, and go on with what comes of that. -/
  | write (path text : String) (next : Written → α)

/-- A file system with states in `σ`: what reading and writing a file do in a state. -/
structure FileSystem (σ : Type) where
  /-- The text of a file, if it can be opened. -/
  read? : σ → String → Option String
  /-- What comes of writing a text to a file, and the state behind that. -/
  write : σ → String → String → Written × σ

namespace FileSystem

variable {σ α : Type}

/-- Carry out a task. -/
def perform (system : FileSystem σ) (files : σ) : FileTask α → α × σ
  | .done result => (result, files)
  | .read path next => (next (system.read? files path), files)
  | .write path text next =>
    let (written, files) := system.write files path text
    (next written, files)

end FileSystem

end Reckoner
