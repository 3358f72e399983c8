import Reckoner.Context.Parse
/-!
# Reading tokens one at a time

A reader hands out the tokens of a line one at a time. It reads no further than it is asked for, and
a token can be looked at before it is handed out. White space in front of a token is skipped when
the token, or the end of the line, is asked for.
-/

namespace Reckoner

/-- A reader of a line. -/
structure Reader where
  /-- The number of bytes of the line. -/
  length : Nat
  /-- The byte that the unread text starts at. -/
  place : Nat
  /-- The text that has not been read. -/
  unread : List Char
  /-- The token that has been looked at and is still to be handed out. -/
  ahead : Option Token
  deriving DecidableEq

namespace Reader

/-- The reader in front of a line. -/
def ofLine (line : String) : Reader :=
  ⟨line.utf8ByteSize, 0, (bytesOf line).map Scan.characterOf, none⟩

/-- The reader behind the blanks that it stands in front of. -/
def skipBlanks (reader : Reader) : Reader :=
  { reader with
    place := reader.place + (reader.unread.takeWhile isBlank).length
    unread := reader.unread.dropWhile isBlank }

/-- The reader after a token is refused. A broken number has been read as a whole, and in front of a
character that starts no token the reader stays. -/
def refuse (reader : Reader) (diagnosis : Diagnosis) (behind : List Char) : Reader :=
  match diagnosis.fault with
  | .brokenNumber _ => { reader with place := diagnosis.position + 1, unread := behind }
  | _ => reader

/-- The token that the unread text begins with, and the reader behind it. -/
def read (context : Context) (reader : Reader) : Except Diagnosis Token × Reader :=
  let reader := reader.skipBlanks
  match reader.unread with
  | [] => (.error ⟨.noFurtherToken, reader.length⟩, reader)
  | first :: rest =>
    match Scan.token reader.place first rest with
    | (.ok found, behind) =>
      (.ok (found.resolve context), { reader with place := found.stop + 1, unread := behind })
    | (.error diagnosis, behind) => (.error diagnosis, reader.refuse diagnosis behind)

/-- The next token, which is still to be handed out. -/
def peek (context : Context) (reader : Reader) : Except Diagnosis Token × Reader :=
  match reader.ahead with
  | some found => (.ok found, reader)
  | none =>
    match reader.read context with
    | (.ok found, behind) => (.ok found, { behind with ahead := some found })
    | (.error diagnosis, behind) => (.error diagnosis, behind)

/-- The next token, which is handed out. -/
def next (context : Context) (reader : Reader) : Except Diagnosis Token × Reader :=
  match reader.ahead with
  | some found => (.ok found, { reader with ahead := none })
  | none => reader.read context

/-- Nothing is left to be read or to be handed out. -/
def eof (reader : Reader) : Bool × Reader :=
  if reader.ahead.isSome then (false, reader)
  else (reader.skipBlanks.unread.isEmpty, reader.skipBlanks)

/-- What a reader is asked for. -/
inductive Call where
  | next | peek | eof
  deriving DecidableEq, Repr

/-- The tokens that a reader hands out when it is called in this order, up to the first call that
fails, and what this call reports. -/
def run (context : Context) : List Call → Reader → List Token × Option Diagnosis
  | [], _ => ([], none)
  | .next :: calls, reader =>
    match reader.next context with
    | (.ok found, behind) =>
      let (tokens, fault) := run context calls behind
      (found :: tokens, fault)
    | (.error diagnosis, _) => ([], some diagnosis)
  | .peek :: calls, reader =>
    match reader.peek context with
    | (.ok _, behind) => run context calls behind
    | (.error diagnosis, _) => ([], some diagnosis)
  | .eof :: calls, reader => run context calls reader.eof.2

end Reader

end Reckoner
