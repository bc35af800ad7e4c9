import PadCompiler.Binary64

/-!
# PadCompiler.Decimal.Shortest

The shortest decimal that reads back as a given 64-bit number.

A positive number `mantissa · 2 ^ exponent` owns the interval of reals that
round to it; the ends belong to it exactly when the mantissa is even.  For
1, 2, … 17 digits the two neighbours of the number on that decimal grid are
tried, and the first grid with a neighbour inside the interval wins.  Of two
neighbours inside, the nearer one is taken, and the upper one on a tie.  All
comparisons are between natural numbers.
-/

namespace PadCompiler

/-- The number `digits · 10 ^ exponent`. -/
structure Decimal where
  digits : Nat
  exponent : Int
deriving DecidableEq, Repr

namespace Decimal

/-- How many decimal digits a number has; zero has one. -/
def digitCount (n : Nat) : Nat :=
  if n < 10 then 1 else digitCount (n / 10) + 1

/-- The exponent of the leading decimal digit of the positive rational
`num / den`. -/
def leadingExponent (num den : Nat) : Int :=
  if den ≤ num then digitCount (num / den) - 1 else -(digitCount ((den - 1) / num))

/-- `base ^ exponent` as a fraction. -/
def powFraction (base : Nat) (exponent : Int) : Nat × Nat :=
  (Nat.pow base exponent.toNat, Nat.pow base (-exponent).toNat)

/-- The neighbour of `mantissa · 2 ^ exponent` on the grid of multiples of
`10 ^ place`, if one lies in the interval that the number owns.  Lengths are
measured in quarters of the number's last binary place, since the interval
reaches half a place up, and half a place down except above a power of two,
where it is a quarter. -/
def onGrid (mantissa : Nat) (exponent place : Int) : Option Decimal :=
  let (twos, halves) := powFraction 2 (exponent - 2)
  let (tens, tenths) := powFraction 10 place
  let unit := twos * tenths
  let grid := tens * halves
  let below := if mantissa = Binary64.hiddenBit ∧ exponent ≠ -1074 then 1 else 2
  let value := 4 * mantissa * unit
  let low := (4 * mantissa - below) * unit
  let high := (4 * mantissa + 2) * unit
  let inside (y : Nat) : Bool :=
    if mantissa % 2 = 0 then low ≤ y && y ≤ high else low < y && y < high
  let digits := value / grid
  let down := digits * grid
  let up := (digits + 1) * grid
  match inside down, inside up with
  | false, false => none
  | true, false => some ⟨digits, place⟩
  | false, true => some ⟨digits + 1, place⟩
  | true, true => some ⟨if value - down < up - value then digits else digits + 1, place⟩

/-- Drops the zeros at the end of the digits. -/
def normalize (d : Decimal) : Decimal :=
  if h : 0 < d.digits ∧ d.digits % 10 = 0 then
    normalize ⟨d.digits / 10, d.exponent + 1⟩
  else d
termination_by d.digits
decreasing_by exact Nat.div_lt_self h.1 (by decide)

/-- The shortest decimal that reads back as `mantissa · 2 ^ exponent`; of those
the nearest, and of two equally near the larger. -/
def shortest (mantissa : Nat) (exponent : Int) : Decimal :=
  let (twos, halves) := powFraction 2 exponent
  let top := leadingExponent (mantissa * twos) halves
  match (List.range 17).findSome? fun (k : Nat) => onGrid mantissa exponent (top - k) with
  | some d => d.normalize
  | none => ⟨0, 0⟩

end Decimal

end PadCompiler
