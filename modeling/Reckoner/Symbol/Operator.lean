/-!
# Operators and signs

The seven binary operators with their precedences, all of which associate to the left, and the two
signs that may stand in front of an operand.
-/

namespace Reckoner

/-- A binary operator. Assignment is the one that defines a name. -/
inductive Operator where
  | assign | add | sub | mul | div | mod | pow
  deriving DecidableEq, Repr

/-- A sign in front of an operand. -/
inductive Sign where
  | plus | minus
  deriving DecidableEq, Repr

namespace Operator

/-- The character of an operator. -/
def symbol : Operator → Char
  | .assign => '='
  | .add => '+'
  | .sub => '-'
  | .mul => '*'
  | .div => '/'
  | .mod => '%'
  | .pow => '^'

/-- The operator of a character. -/
def ofChar? : Char → Option Operator
  | '=' => some .assign
  | '+' => some .add
  | '-' => some .sub
  | '*' => some .mul
  | '/' => some .div
  | '%' => some .mod
  | '^' => some .pow
  | _ => none

/-- The operator of a text of one character. -/
def ofText? (text : String) : Option Operator :=
  match text.toList with
  | [c] => ofChar? c
  | _ => none

/-- An operator of higher precedence binds its operands first. -/
def precedence : Operator → Nat
  | .assign => 1
  | .add | .sub => 2
  | .mul | .div | .mod => 3
  | .pow => 4

/-- The sign that has the character of an operator. -/
def sign? : Operator → Option Sign
  | .add => some .plus
  | .sub => some .minus
  | _ => none

/-- The text of an operator. -/
def text (operator : Operator) : String := operator.symbol.toString

theorem ofChar?_symbol (operator : Operator) : ofChar? operator.symbol = some operator := by
  cases operator <;> rfl

/-- The operator of a character has that character. -/
theorem eq_symbol_of_ofChar? {c : Char} {operator : Operator}
    (known : ofChar? c = some operator) : c = operator.symbol := by
  unfold ofChar? at known
  split at known
  all_goals first
    | contradiction
    | (obtain rfl := Option.some.inj known; rfl)

theorem precedence_pos (operator : Operator) : 0 < operator.precedence := by
  cases operator <;> decide

theorem precedence_le (operator : Operator) : operator.precedence ≤ 4 := by
  cases operator <;> decide

end Operator

/-- The operator that has the character of a sign. -/
def Sign.operator : Sign → Operator
  | .plus => .add
  | .minus => .sub

/-- The text of a sign. -/
def Sign.text (sign : Sign) : String := sign.operator.text

theorem Sign.sign?_operator (sign : Sign) : sign.operator.sign? = some sign := by
  cases sign <;> rfl

end Reckoner
