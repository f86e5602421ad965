/-
This file rounds a positive rational number to a count of significant digits.
-/

import Calculator.Decimal.Basic

namespace Calculator.Decimal

/-- A rounding that reaches the next power of ten keeps the count of digits. -/
def significantFrom (count : Nat) (x : Rat) (start : Int) : Decimal :=
  let lead := Rational.orderFrom 10 x start
  let rounded := (Rational.roundHalfEven (x * 10 ^ (count - 1 - lead))).toNat
  if rounded = Nat.pow 10 count then ⟨Nat.pow 10 (count - 1), lead + 2 - count⟩
  else ⟨rounded, lead + 1 - count⟩

def significant (count : Nat) (x : Rat) : Decimal :=
  significantFrom count x (Rational.order 10 x)

end Calculator.Decimal
