import PadCompiler.Decimal.Shortest
import PadCompiler.Text.Pad

/-!
# PadCompiler.Decimal.Fixed

Numbers with a fixed count of decimal places.  The exact binary value is
rounded to the nearest decimal, and a half goes to the even digit.
-/

namespace PadCompiler.Decimal

/-- The integer nearest to `num / den`; a half goes to the even neighbour. -/
def roundHalfEven (num den : Nat) : Nat :=
  let whole := num / den
  let rest := num % den
  if 2 * rest < den then whole
  else if den < 2 * rest then whole + 1
  else if whole % 2 = 0 then whole else whole + 1

/-- `mantissa · 2 ^ exponent` with `places` digits after the point. -/
def fixed (places mantissa : Nat) (exponent : Int) : String :=
  let (twos, halves) := powFraction 2 exponent
  let unit := Nat.pow 10 places
  let scaled := roundHalfEven (mantissa * unit * twos) halves
  toString (scaled / unit) ++ "." ++ Text.zeroPad places (scaled % unit)

end PadCompiler.Decimal
