/-
This file writes a number for the display.
-/

import Calculator.Decimal.Layout
import Calculator.Decimal.Significant
import Calculator.Error

namespace Calculator

inductive DisplayMode where
  | normal
  | scientific
  deriving DecidableEq

namespace DisplayMode

def label : DisplayMode → String
  | .normal => "NORM"
  | .scientific => "SCI"

def other : DisplayMode → DisplayMode
  | .normal => .scientific
  | .scientific => .normal

/-- This is the count of significant digits. -/
def digits : DisplayMode → Nat
  | .normal => 10
  | .scientific => 6

/-- The normal mode never shows an exponent, and the scientific mode always does. -/
def layout (mode : DisplayMode) (decimal : Decimal) : List Char :=
  match mode with
  | .normal => decimal.positional
  | .scientific => decimal.mantissa ++ 'e' :: Decimal.integer decimal.lead

/-- The digits are those of the exact value, rounded once, and without trailing zeros. -/
def spell (mode : DisplayMode) (x : Float) : List Char :=
  if x.isFinite then
    if Binary64.significand x = 0 then mode.layout ⟨0, 0⟩
    else
      let rounded := Decimal.significant mode.digits (Binary64.magnitude x)
      (if Binary64.negative x then ['-'] else []) ++ mode.layout rounded.trim
  else mathMessage.toList

def render (mode : DisplayMode) (x : Float) : String :=
  String.ofList (mode.spell x)

end DisplayMode

end Calculator
