import Reckoner.Binary64.Basic
import Reckoner.Table
/-!
# JSON values

Numbers are doubles, NaN and the infinities among them. The members of an object are held in
ascending order of their names, each name once.

How values are written and read is up to a library. All that is settled here is what it is asked for
and which answers it may give.
-/

namespace Reckoner

/-- A JSON value. -/
inductive Json where
  | null
  | bool (value : Bool)
  | number (value : Binary64)
  | string (text : String)
  | array (elements : List Json)
  | object (members : List (String × Json))

namespace Json

instance : Inhabited Json := ⟨null⟩

/-- The object of some members; of several of one name the last one counts. -/
def ofMembers (members : List (String × Json)) : Json :=
  object (members.foldl (fun list member => Table.insertEntry member.1 member.2 list) [])

/-- The text of a string. -/
def text? : Json → Option String
  | string text => some text
  | _ => none

/-- The value of a number. -/
def number? : Json → Option Binary64
  | number value => some value
  | _ => none

/-- The elements of an array. -/
def elements? : Json → Option (List Json)
  | array elements => some elements
  | _ => none

/-- The members of an object. -/
def members? : Json → Option (List (String × Json))
  | object members => some members
  | _ => none

/-- What a library makes of a text. -/
inductive Reading where
  /-- The text is that of a value. -/
  | document (value : Json)
  /-- The text is refused, with a report on what is wrong with it. -/
  | refused (report : String)
  /-- The library gives up with an exception, as on values that are nested too deeply for it. -/
  | aborted (report : String)

/-- A library that writes values as texts and reads them. -/
structure Library where
  /-- Read a text. -/
  read : String → Reading
  /-- Write a value. -/
  write : Json → String

end Json

end Reckoner
