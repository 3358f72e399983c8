import Reckoner.Numeral.Literal
/-!
# Names

A name is a letter followed by letters and digits, where the underscore counts as a letter. Letters
and digits are those of ASCII.
-/

namespace Reckoner

/-- A character that may continue a name. -/
def isNameChar (c : Char) : Bool := isLetter c || c.isDigit

/-- The text is a name. -/
def isName (text : String) : Bool :=
  match text.toList with
  | [] => false
  | first :: rest => isLetter first && rest.all isNameChar

/-- White space of ASCII. -/
def isBlank (c : Char) : Bool :=
  c == ' ' || c == '\t' || c == '\n' || c == '\x0b' || c == '\x0c' || c == '\r'

/-- Where a name stands in a context: it is built in, defined by the user, or not known. -/
inductive Origin where
  | builtIn | user | unknown
  deriving DecidableEq, Repr

end Reckoner
