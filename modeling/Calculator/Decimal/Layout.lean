/-
This file writes the digits of a decimal number.
-/

import Calculator.Decimal.Basic

namespace Calculator.Decimal

def digits (d : Decimal) : List Char :=
  Nat.toDigits 10 d.coefficient

/-- This is the exponent of the first digit. -/
def lead (d : Decimal) : Int :=
  d.exponent + d.digits.length - 1

/-- The positional text has no exponent, and a digit stands before the point. -/
def positional (d : Decimal) : List Char :=
  if 0 ≤ d.exponent then d.digits ++ List.replicate d.exponent.toNat '0'
  else
    let places := (-d.exponent).toNat
    let whole := d.digits.length - places
    if 0 < whole then d.digits.take whole ++ '.' :: d.digits.drop whole
    else '0' :: '.' :: List.replicate (places - d.digits.length) '0' ++ d.digits

/-- The mantissa has one digit before the point, and no point without a digit after it. -/
def mantissa (d : Decimal) : List Char :=
  match d.digits with
  | [] => []
  | [digit] => [digit]
  | digit :: rest => digit :: '.' :: rest

/-- A minus sign marks a negative integer. -/
def integer (n : Int) : List Char :=
  if n < 0 then '-' :: Nat.toDigits 10 n.natAbs else Nat.toDigits 10 n.natAbs

end Calculator.Decimal
