/-
This file holds the settings of the calculator.
-/

import Calculator.Angle
import Calculator.Display

namespace Calculator

/-- The calculator starts with degrees and the normal display. -/
structure Settings where
  angle : AngleUnit := .degree
  format : DisplayMode := .normal
  deriving DecidableEq

end Calculator
