/-
This file finds the shortest decimal number that denotes a given binary64 number.
-/

import Calculator.Decimal.Basic

namespace Calculator.Decimal

/-- Two neighbours may lie at the same distance. -/
inductive Tie where
  | upward
  | even
  deriving DecidableEq

/-- This says whether the upper neighbour wins when both neighbours read back. -/
def Tie.upper (tie : Tie) (low : Nat) (part : Rat) : Bool :=
  if part < 1 / 2 then false
  else if 1 / 2 < part then true
  else match tie with
    | .upward => true
    | .even => low % 2 = 1

/-- One of the two neighbours on the grid of a power of ten may denote the number. -/
def onGrid? (tie : Tie) (x : Float) (power : Int) : Option Decimal :=
  let scaled := Binary64.magnitude x * 10 ^ (-power)
  let low := scaled.floor.toNat
  let lower : Decimal := ⟨low, power⟩
  let upper : Decimal := ⟨low + 1, power⟩
  if lower.toFloat = x then
    if upper.toFloat = x then
      some (if tie.upper low (scaled - low) then upper else lower)
    else some lower
  else if upper.toFloat = x then some upper
  else none

/-- Every finite binary64 number is a decimal number. -/
def exact (x : Float) : Decimal :=
  let power := Binary64.exponent x
  if 0 ≤ power then ⟨Binary64.significand x * Nat.pow 2 power.toNat, 0⟩
  else ⟨Binary64.significand x * Nat.pow 5 (-power).toNat, power⟩

/-- The coarsest grid that holds a decimal number for a positive finite number gives the fewest
digits. -/
def shortest (tie : Tie) (x : Float) : Decimal :=
  let lead := Rational.order 10 (Binary64.magnitude x)
  let found := (List.range 17).findSome? fun (extra : Nat) => onGrid? tie x (lead - extra)
  (found.getD (exact x)).trim

end Calculator.Decimal
