/-
This file holds decimal numbers and the binary64 number that one denotes.
-/

import Calculator.Binary64.Nearest

namespace Calculator

/-- A decimal number is a coefficient times a power of ten. -/
structure Decimal where
  coefficient : Nat
  exponent : Int
  deriving DecidableEq

namespace Decimal

def value (d : Decimal) : Rat :=
  (d.coefficient : Rat) * 10 ^ d.exponent

/-- This is the nearest binary64 number. A power of ten far outside the range is not computed,
because the exponent alone then gives the result. -/
def toFloat (d : Decimal) : Float :=
  if d.coefficient = 0 then Float.ofBits 0
  else if 400 < d.exponent then Binary64.infinity
  else if d.exponent + d.coefficient.log2 < -400 then Float.ofBits 0
  else Binary64.nearest d.value

/-- The trailing zeros move from the coefficient to the exponent. -/
def trim (d : Decimal) : Decimal :=
  if zero : 0 < d.coefficient ∧ d.coefficient % 10 = 0 then
    trim ⟨d.coefficient / 10, d.exponent + 1⟩
  else d
termination_by d.coefficient
decreasing_by
  show d.coefficient / 10 < d.coefficient
  omega

/-- The digits before and after the point give one coefficient. -/
def ofDigits (whole fraction : List Char) (power : Int) : Decimal :=
  ⟨Nat.ofDigitChars 10 (whole ++ fraction) 0, power - fraction.length⟩

end Decimal

end Calculator
