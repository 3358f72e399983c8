import Reckoner.Binary64.Arithmetic
/-!
# Bases and parts of numerals

The bases two, eight and sixteen have markers of their own. A numeral of any base is a whole part
and a fraction; zeros at the end of the fraction are left out together with a point that nothing
follows.
-/

namespace Reckoner

/-- The bases that have a numeral marker of their own. -/
inductive Base where
  | binary | octal | hex
  deriving DecidableEq, Repr

namespace Base

/-- The number of digits of a base. -/
def size : Base → Nat
  | .binary => 2
  | .octal => 8
  | .hex => 16

/-- A base has more than one digit. -/
theorem one_lt_size (base : Base) : 1 < base.size := by
  cases base <;> decide

/-- A base has at most sixteen digits. -/
theorem size_le (base : Base) : base.size ≤ 16 := by
  cases base <;> decide

/-- A base is a power of two. -/
theorem exists_size_eq (base : Base) : ∃ bits, base.size = Nat.pow 2 bits := by
  cases base with
  | binary => exact ⟨1, rfl⟩
  | octal => exact ⟨3, rfl⟩
  | hex => exact ⟨4, rfl⟩

/-- The number of digits of a base as a double. -/
def double (base : Base) : Binary64 := Binary64.ofInt base.size

/-- The letter after the leading zero of a numeral that names its base. -/
def letter : Base → Char
  | .binary => 'b'
  | .octal => 'o'
  | .hex => 'x'

/-- The base that a letter names. -/
def ofLetter? : Char → Option Base
  | 'b' => some .binary
  | 'o' => some .octal
  | 'x' => some .hex
  | _ => none

end Base

/-- The text without the zeros at its end. -/
def trimZeros (digits : List Char) : List Char :=
  (digits.reverse.dropWhile (· == '0')).reverse

/-- The digits of a number, with zeros in front up to a width. -/
def paddedDigits (base width number : Nat) : List Char :=
  let digits := Nat.toDigits base number
  List.replicate (width - digits.length) '0' ++ digits

/-- The whole part of a numeral followed by its fraction, if it has one. -/
def withFraction (whole fraction : List Char) : List Char :=
  if fraction.isEmpty then whole else whole ++ '.' :: fraction

end Reckoner
