import PadCompiler.Binary64
import PadCompiler.Decimal.Shortest
import PadCompiler.Text.Pad

/-!
# PadCompiler.Value

Literal values, their types, and how they are written in instructions.

A float is held as its 64-bit pattern, so two floats are equal exactly when
their bits are, and nothing is lost in an unusual NaN.
-/

namespace PadCompiler

/-- The type of a variable, parameter, array element or function result. -/
inductive Ty where
  | int
  | float
  | bool
  | color
deriving DecidableEq, Repr

/-- A literal value. -/
inductive Value where
  | int (n : Int64)
  | float (bits : UInt64)
  | bool (b : Bool)
  /-- A colour, kept as it was spelled: `#ff00aa`. -/
  | color (spelling : String)
deriving DecidableEq

/-! ## Types -/

/-- The name of a type. -/
def Ty.text : Ty → String
  | .int => "int"
  | .float => "float"
  | .bool => "bool"
  | .color => "color"

/-- The value that fills an array declared without initial elements. -/
def Ty.zero : Ty → Value
  | .int => .int 0
  | .float => .float 0
  | .bool => .bool false
  | .color => .color "#000000"

/-! ## Floats -/

/-- Writes a positive decimal.  The point is written in place when the leading
digit stands at `10 ^ -4` to `10 ^ 15`, with at least one digit after it; beyond
that the digits are followed by the exponent of the leading one. -/
def decimalText (d : Decimal) : String :=
  let digits := (toString d.digits).toList
  let top := d.exponent + digits.length - 1
  if -4 ≤ top ∧ top < 16 then
    if top < 0 then
      "0." ++ Text.repeated '0' (-top - 1).toNat ++ String.ofList digits
    else
      let point := top.toNat + 1
      let fraction := digits.drop point
      String.ofList (digits.take point) ++ Text.repeated '0' (point - digits.length) ++ "." ++
        if fraction.isEmpty then "0" else String.ofList fraction
  else
    let fraction := digits.drop 1
    String.ofList (digits.take 1) ++
      (if fraction.isEmpty then "" else "." ++ String.ofList fraction) ++
      "e" ++ toString top

/-- Writes a float with the fewest digits that read back as it.  Zero keeps
its sign, NaN has none. -/
def floatText (bits : UInt64) : String :=
  match Binary64.ofBits bits with
  | .nan => "NaN"
  | .infinite negative => if negative then "-inf" else "inf"
  | .finite negative mantissa exponent =>
    let magnitude :=
      if mantissa = 0 then "0.0" else decimalText (Decimal.shortest mantissa exponent)
    if negative then "-" ++ magnitude else magnitude

/-! ## Values -/

/-- A value as an instruction shows it. -/
def Value.text : Value → String
  | .int n => toString n.toInt
  | .float bits => floatText bits
  | .bool b => if b then "true" else "false"
  | .color spelling => spelling

end PadCompiler
