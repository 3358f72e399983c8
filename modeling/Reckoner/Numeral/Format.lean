import Reckoner.Numeral.Decimal
import Reckoner.Numeral.Expansion
/-!
# Formatting doubles

A double is written in one of five forms with a precision from 1 to 64, which counts significant
digits in the decimal form and digits after the point in the others. The digits are those of the
exact value. The sign of a number is written before its marker, zero has none, and NaN and the
infinities have one text in every form.
-/

namespace Reckoner

/-- The five forms of a number. -/
inductive Radix where
  | decimal | binary | octal | hex | exponential
  deriving DecidableEq, Repr

namespace Radix

/-- The name of a form. -/
def name : Radix → String
  | .decimal => "dec"
  | .binary => "bin"
  | .octal => "oct"
  | .hex => "hex"
  | .exponential => "exp"

/-- The form of a name. -/
def ofName? : String → Option Radix
  | "dec" => some .decimal
  | "bin" => some .binary
  | "oct" => some .octal
  | "hex" => some .hex
  | "exp" => some .exponential
  | _ => none

/-- Every form is the one of its own name. -/
theorem ofName?_name (radix : Radix) : ofName? radix.name = some radix := by
  cases radix <;> rfl

end Radix

/-- A count of digits from 1 to 64. -/
structure Precision where
  /-- The number of digits. -/
  digits : Nat
  /-- There is at least one digit. -/
  positive : 1 ≤ digits := by omega
  /-- There are at most 64 digits. -/
  bounded : digits ≤ 64 := by omega
  deriving DecidableEq, Repr

/-- A number is a precision if it is from 1 to 64. -/
def Precision.ofNat? (digits : Nat) : Option Precision :=
  if h : 1 ≤ digits ∧ digits ≤ 64 then some ⟨digits, h.1, h.2⟩ else none

/-- The precision of a session that asks for none: ten digits. -/
def Precision.initial : Precision := { digits := 10 }

/-- How numbers are shown. -/
structure Format where
  /-- The form of a number. -/
  radix : Radix := .decimal
  /-- The number of digits of a number. -/
  precision : Precision := .initial
  deriving DecidableEq, Repr

instance : Inhabited Format := ⟨{}⟩

/-- The digits of a finite double without its sign, after the marker of the base if the form has
one. -/
def Format.magnitude (format : Format) (x : Binary64) (finite : x.isFinite = true) : List Char :=
  let digits := format.precision.digits
  let inBase (base : Base) : List Char :=
    '0' :: base.letter :: base.expansion digits x.abs finite rfl
  match format.radix with
  | .decimal => generalDecimal digits x.units Binary64.one
  | .exponential => scientificDecimal digits x.units Binary64.one
  | .binary => inBase .binary
  | .octal => inBase .octal
  | .hex => inBase .hex

/-- The characters of a finite double. Zero has no sign, whatever its bits say. -/
def Format.finite (format : Format) (x : Binary64) (finite : x.isFinite = true) : List Char :=
  let digits := format.magnitude x finite
  if x.negative ∧ x.units ≠ 0 then '-' :: digits else digits

/-- The text of a double. -/
def Format.float (format : Format) (x : Binary64) : String :=
  if number : x.isNaN = true then "NaN"
  else if bounded : x.isInf = true then (if x.negative then "-inf" else "inf")
  else
    have finite := x.isFinite_eq_true_iff.mpr
      ⟨Bool.of_not_eq_true bounded, Bool.of_not_eq_true number⟩
    String.ofList (format.finite x finite)

/-- The text of a finite double is that of its digits. -/
theorem Format.float_of_isFinite (format : Format) {x : Binary64} (finite : x.isFinite = true) :
    format.float x = String.ofList (format.finite x finite) := by
  obtain ⟨bounded, number⟩ := x.isFinite_eq_true_iff.mp finite
  rw [Format.float, dif_neg (ne_true_of_eq_false number), dif_neg (ne_true_of_eq_false bounded)]

end Reckoner
