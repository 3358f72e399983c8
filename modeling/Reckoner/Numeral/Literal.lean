import Reckoner.Numeral.Radix
/-!
# Number literals

A number literal is decimal, with an optional fraction and an optional exponent, or it names its
base by a marker and is whole. Decimal literals denote the double nearest to them. The digits of
the other literals are taken up one at a time with the operations of doubles, so every step rounds.

A literal is first cut out of the text as a run, which reaches as far as letters, digits, points
and the sign of an exponent go, and then read. So a letter glued to a number spoils the literal
as a whole instead of starting a name.
-/

namespace Reckoner

/-- A character that may stand in a name without being a digit. -/
def isLetter (c : Char) : Bool := c.isAlpha || c == '_'

/-- The value of a digit of the base sixteen or less, in either case. -/
def digitValue? (c : Char) : Option Nat :=
  if c.isDigit then some (c.toNat - '0'.toNat)
  else if 'a' ≤ c ∧ c ≤ 'f' then some (c.toNat - 'a'.toNat + 10)
  else if 'A' ≤ c ∧ c ≤ 'F' then some (c.toNat - 'A'.toNat + 10)
  else none

/-- A character is a digit of a base. -/
def Base.isDigit (base : Base) (c : Char) : Bool := (digitValue? c).any (· < base.size)

/-- The number that digits of a base denote. -/
def numberOf (base : Nat) (digits : List Char) : Nat :=
  digits.foldl (fun number c => number * base + (digitValue? c).getD 0) 0

/-- The double that digits of a base denote. -/
def Base.valueOf (base : Base) (digits : List Char) : Binary64 :=
  digits.foldl (fun value c => value * base.double + Binary64.ofInt ((digitValue? c).getD 0)) 0

namespace Literal

/-- A run cut out of a text. -/
structure Run where
  /-- The characters of the run, without the imaginary unit. -/
  characters : List Char
  /-- An imaginary unit ends the run. -/
  imaginary : Bool
  /-- The text behind the run. -/
  behind : List Char

/-- The run with a character in front. -/
def Run.cons (c : Char) (run : Run) : Run := { run with characters := c :: run.characters }

/-- The number of characters that the run takes up in the text. -/
def Run.length (run : Run) : Nat := run.characters.length + if run.imaginary then 1 else 0

/-- The rest of a run behind its first character. A sign belongs to the run directly behind the
letter of an exponent, which a literal of base sixteen does not have. -/
def runTail (hex afterExponent : Bool) : List Char → Run
  | [] => ⟨[], false, []⟩
  | c :: rest =>
    if c == 'i' then ⟨[], true, rest⟩
    else if c.isDigit || c == '.' then (runTail hex false rest).cons c
    else if afterExponent && (c == '+' || c == '-') then (runTail hex false rest).cons c
    else if isLetter c then (runTail hex (!hex && (c == 'e' || c == 'E')) rest).cons c
    else ⟨[], false, c :: rest⟩

/-- The run of a literal that starts with `first`. -/
def run (first : Char) (rest : List Char) : Run :=
  (runTail (first == '0' && rest.head? == some 'x') false rest).cons first

/-- A run that starts with the point has a zero in front of it. -/
def spelled : List Char → List Char
  | '.' :: rest => '0' :: '.' :: rest
  | text => text

/-- The exponent of a decimal literal, zero if there is none. -/
def exponent? : List Char → Option Int
  | [] => some 0
  | mark :: rest =>
    let (negative, digits) :=
      match rest with
      | '+' :: digits => (false, digits)
      | '-' :: digits => (true, digits)
      | digits => (false, digits)
    if (mark == 'e' || mark == 'E') && !digits.isEmpty && digits.all Char.isDigit then
      let magnitude := numberOf 10 digits
      some (if negative then -(magnitude : Int) else magnitude)
    else none

/-- A decimal literal as a natural number times a power of ten. -/
def decimal? (text : List Char) : Option (Nat × Int) :=
  let whole := text.takeWhile Char.isDigit
  let behindWhole := text.dropWhile Char.isDigit
  let (fraction, behind) :=
    match behindWhole with
    | '.' :: rest => (rest.takeWhile Char.isDigit, rest.dropWhile Char.isDigit)
    | _ => ([], behindWhole)
  let digits := whole ++ fraction
  if digits.isEmpty then none
  else (exponent? behind).map fun exponent =>
    (numberOf 10 digits, exponent - (fraction.length : Int))

/-- The base and the digits of a text that starts with the marker of a base and goes on. -/
def marked? : List Char → Option (Base × List Char)
  | '0' :: letter :: digit :: digits =>
    (Base.ofLetter? letter).map fun base => (base, digit :: digits)
  | _ => none

/-- The text is a number literal. -/
def valid (text : List Char) : Bool :=
  match marked? text with
  | some (base, digits) => digits.all base.isDigit
  | none => (decimal? text).isSome

/-- The double nearest to `mantissa * 10 ^ exponent`. Beyond the powers of ten that occur among
doubles the power is not computed. -/
def decimalValue (mantissa : Nat) (exponent : Int) : Binary64 :=
  if mantissa = 0 then 0
  else if 400 < exponent then Binary64.infinity
  else if 0 ≤ exponent then Binary64.nearest (mantissa * Nat.pow 10 exponent.toNat) 1
  else if exponent < -(400 + (mantissa.log2 : Int)) then 0
  else Binary64.nearest mantissa (Nat.pow 10 (-exponent).toNat)

/-- The double that a literal denotes. -/
def value (text : List Char) : Binary64 :=
  match marked? text with
  | some (base, digits) => base.valueOf digits
  | none =>
    match decimal? text with
    | some (mantissa, exponent) => decimalValue mantissa exponent
    | none => 0

end Literal

end Reckoner
