import Reckoner.Symbol.Name
import Reckoner.Symbol.Operator
/-!
# Tokens

A line is read as a list of tokens. A token knows the bytes of the line that it was read from.
-/

namespace Reckoner

/-- A punctuation mark. -/
inductive Mark where
  | opening | closing | comma
  deriving DecidableEq, Repr

/-- The character of a punctuation mark. -/
def Mark.symbol : Mark → Char
  | .opening => '('
  | .closing => ')'
  | .comma => ','

/-- The punctuation mark of a character. -/
def Mark.ofChar? : Char → Option Mark
  | '(' => some .opening
  | ')' => some .closing
  | ',' => some .comma
  | _ => none

/-- The punctuation mark of a character has that character. -/
theorem Mark.eq_symbol_of_ofChar? {c : Char} {mark : Mark} (known : ofChar? c = some mark) :
    c = mark.symbol := by
  unfold ofChar? at known
  split at known
  all_goals first
    | contradiction
    | (obtain rfl := Option.some.inj known; rfl)

/-- The text of a punctuation mark. -/
def Mark.text (mark : Mark) : String := mark.symbol.toString

/-- What a token says. -/
inductive Lexeme where
  /-- A literal as it is spelled, without its imaginary unit. -/
  | number (spelling : String) (imaginary : Bool)
  /-- A name that no parenthesis follows directly. -/
  | constant (origin : Origin) (name : String)
  /-- A name that a parenthesis follows directly. -/
  | function (origin : Origin) (name : String)
  /-- An operator or a sign. -/
  | operator (operator : Operator)
  /-- A punctuation mark. -/
  | mark (mark : Mark)
  deriving DecidableEq, Repr

/-- The text of a lexeme. -/
def Lexeme.text : Lexeme → String
  | number spelling _ => spelling
  | constant _ name => name
  | function _ name => name
  | operator sign => sign.text
  | mark sign => sign.text

/-- A lexeme and the bytes of the line that it stands on. -/
structure Token where
  /-- What the token says. -/
  lexeme : Lexeme
  /-- Its first byte. -/
  start : Nat
  /-- Its last byte, which is the one that reports point at. -/
  stop : Nat
  deriving DecidableEq, Repr

/-- The text of a token. -/
def Token.text (token : Token) : String := token.lexeme.text

end Reckoner
