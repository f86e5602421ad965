/-
This file rounds a rational number to an integer.
-/

namespace Calculator.Rational

/-- The nearest integer wins, and the even neighbour wins a tie. -/
def roundHalfEven (x : Rat) : Int :=
  let low := x.floor
  let part := x - low
  if part < 1 / 2 then low
  else if 1 / 2 < part then low + 1
  else if low % 2 = 0 then low
  else low + 1

end Calculator.Rational
