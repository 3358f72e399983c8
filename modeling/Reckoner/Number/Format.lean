import Reckoner.Number.Basic
import Reckoner.Numeral.Format
/-!
# Formatting numbers

A real number is written as its double. A complex number is written as its two parts in algebraic
form, where the sign between them is that of the imaginary part, also if that part is zero. A
number with a NaN part is written as a NaN.
-/

namespace Reckoner

/-- The text of a number. -/
def Format.number (format : Format) : Number → String
  | .real x => format.float x
  | .complex z =>
    if z.isNaN then "NaN"
    else
      let sign := if z.im.negative then "-" else "+"
      format.float z.re ++ sign ++ format.float z.im.abs ++ "i"

end Reckoner
