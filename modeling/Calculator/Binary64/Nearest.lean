/-
This file rounds an exact value to the nearest binary64 number.
-/

import Calculator.Binary64.Basic
import Calculator.Rational.Order
import Calculator.Rational.Rounding

namespace Calculator.Binary64

/-- Numbers of this order are the multiples of two to this exponent. -/
def spacing (x : Rat) : Int :=
  let fine := Rational.order 2 x - 52
  if fine < -1074 then -1074 else fine

/-- The bit patterns of the positive numbers follow their values, so a count of steps that
carries into the next order, or past the largest finite number, still names the right
pattern. -/
def nearestBits (x : Rat) : Nat :=
  let steps := Rational.roundHalfEven (x * 2 ^ (-spacing x))
  let pattern := ((spacing x + 1074) * 0x10000000000000 + steps).toNat
  if pattern < infinityBits then pattern else infinityBits

/-- The nearest number has an even significand in a tie, and it is infinite beyond the range.
The exact value must not be negative. -/
def nearest (x : Rat) : Float :=
  if 0 < x then Float.ofBits (UInt64.ofNat (nearestBits x)) else Float.ofBits 0

end Calculator.Binary64
