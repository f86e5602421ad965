/-
This file holds the angle units and the functions of an angle.
-/

import Calculator.Elementary
import Calculator.Error

namespace Calculator

inductive AngleUnit where
  | degree
  | radian
  | gradian
  deriving DecidableEq

namespace AngleUnit

def label : AngleUnit → String
  | .degree => "DEG"
  | .radian => "RAD"
  | .gradian => "GRA"

/-- A turn of radians is not a rational number. -/
def turn? : AngleUnit → Option Nat
  | .degree => some 360
  | .radian => none
  | .gradian => some 400

def toRadians (unit : AngleUnit) (x : Float) : Float :=
  match unit with
  | .degree => x * (Binary64.pi / 180)
  | .radian => x
  | .gradian => x * (Binary64.pi / 200)

end AngleUnit

/-- The residue of an angle lies in the first turn. It is exact for a positive angle, and it is
rounded for a negative one. -/
def residue (turn : Nat) (x : Float) : Float :=
  let exact := Binary64.value x
  Binary64.nearest (exact - turn * (exact / turn).floor)

namespace AngleFunction

variable [Elementary]

def ofRadians (f : AngleFunction) (x : Float) : Float :=
  match f with
  | .sin => Elementary.sin x
  | .cos => Elementary.cos x
  | .tan => Elementary.tan x

/-- The sine of a count of quarter turns is exact. -/
def quarterSine (quarters : Nat) : Float :=
  match quarters % 4 with
  | 0 | 2 => 0
  | 1 => 1
  | _ => -1

/-- The tangent of an odd count of quarter turns is not defined. -/
def ofQuarters (f : AngleFunction) (quarters : Nat) : Except MathError Float :=
  match f with
  | .sin => .ok (quarterSine quarters)
  | .cos => .ok (quarterSine (quarters + 1))
  | .tan => if quarters % 2 = 0 then .ok 0 else .error (.outOfDomain .undefinedTangent)

def converted (f : AngleFunction) (radians : Float) : Except MathError Float :=
  let result := f.ofRadians radians
  if result.isFinite then .ok result else .error (.outOfDomain .undefinedTangent)

/-- A count of quarter turns is recognised before the conversion to radians. -/
def apply (f : AngleFunction) (unit : AngleUnit) (x : Float) : Except MathError Float :=
  if x.isFinite then
    match unit.turn? with
    | none => f.converted x
    | some turn =>
      let reduced := residue turn x
      let quarters := Binary64.value reduced / (turn / 4)
      if quarters.isInt then f.ofQuarters quarters.num.toNat
      else f.converted (unit.toRadians reduced)
  else .error (.outOfDomain .infiniteAngle)

end AngleFunction

end Calculator
