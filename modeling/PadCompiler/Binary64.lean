/-!
# PadCompiler.Binary64

The numbers that 64-bit IEEE 754 patterns stand for, as exact integers times
powers of two.
-/

namespace PadCompiler

/-- What a 64-bit pattern stands for.  A finite number is
`± mantissa · 2 ^ exponent`. -/
inductive Binary64 where
  | nan
  | infinite (negative : Bool)
  | finite (negative : Bool) (mantissa : Nat) (exponent : Int)

/-- The bit above the fraction, which normal numbers have and the pattern does
not show. -/
def Binary64.hiddenBit : Nat :=
  0x10000000000000

/-- Reads a pattern: one sign bit, eleven exponent bits, 52 fraction bits. -/
def Binary64.ofBits (bits : UInt64) : Binary64 :=
  let n := bits.toNat
  let negative := n / hiddenBit / 2048 == 1
  let field : Nat := n / hiddenBit % 2048
  let fraction : Nat := n % hiddenBit
  if field = 2047 then
    if fraction = 0 then .infinite negative else .nan
  else if field = 0 then .finite negative fraction (-1074)
  else .finite negative (hiddenBit + fraction) (field - 1075)

end PadCompiler
