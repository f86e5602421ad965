/-
This file evaluates the tree of an expression.
-/

import Calculator.Angle
import Calculator.Expr.Basic

namespace Calculator

variable [Elementary]

/-- Zero to the power of zero is one. -/
def power (x y : Float) : Except MathError Float :=
  if x == 0 && y < 0 then .error .divisionByZero
  else
    let result := Elementary.pow x y
    if result.isNaN && !x.isNaN && !y.isNaN then .error (.outOfDomain .fractionalPower)
    else .ok result

def Operator.compute (op : Operator) (x y : Float) : Except MathError Float :=
  match op with
  | .add => .ok (x + y)
  | .sub => .ok (x - y)
  | .mul => .ok (x * y)
  | .div => if y == 0 then .error .divisionByZero else .ok (x / y)
  | .pow => power x y

/-- An operation on finite operands must not leave the range. -/
def Operator.apply (op : Operator) (x y : Float) : Except MathError Float :=
  match op.compute x y with
  | .ok result =>
    if result.isInf && x.isFinite && y.isFinite then .error .overflow else .ok result
  | .error cause => .error cause

/-- Only the argument of an angle function depends on the unit. -/
def NamedFunction.apply (f : NamedFunction) (unit : AngleUnit) (x : Float) :
    Except MathError Float :=
  match f with
  | .angle f => f.apply unit x
  | .log => if x ≤ 0 then .error (.outOfDomain .logarithm) else .ok (Elementary.log10 x)
  | .ln => if x ≤ 0 then .error (.outOfDomain .logarithm) else .ok (Elementary.ln x)
  | .sqrt => if x < 0 then .error (.outOfDomain .squareRoot) else .ok x.sqrt
  | .abs => .ok x.abs

/-- The factors are multiplied in increasing order. -/
def product : Nat → Float
  | 0 => 1
  | count + 1 => product count * Float.ofNat (count + 1)

/-- This is the largest number with a finite factorial. -/
def factorialLimit : Nat := 170

/-- The factorial of a large integer is infinite, and it is not an error by itself. -/
def factorial (x : Float) : Except MathError Float :=
  if x = Binary64.infinity then .ok Binary64.infinity
  else if x.isFinite then
    let exact := Binary64.value x
    if exact.isInt && 0 ≤ exact.num then
      if factorialLimit < exact.num then .ok Binary64.infinity
      else .ok (product exact.num.toNat)
    else .error (.outOfDomain .factorial)
  else .error (.outOfDomain .factorial)

namespace Expr

/-- The operands are evaluated from left to right, and the first error is the result. An infinite
number is a number that was too large to write. -/
def compute (answer : Float) (unit : AngleUnit) : Expr → Except MathError Float
  | .number x => if x.isInf then .error .overflow else .ok x
  | .answer => .ok answer
  | .negate operand =>
    match operand.compute answer unit with
    | .ok x => .ok (-x)
    | .error cause => .error cause
  | .binary op left right =>
    match left.compute answer unit with
    | .ok x =>
      match right.compute answer unit with
      | .ok y => op.apply x y
      | .error cause => .error cause
    | .error cause => .error cause
  | .call f argument =>
    match argument.compute answer unit with
    | .ok x => f.apply unit x
    | .error cause => .error cause
  | .factorial operand =>
    match operand.compute answer unit with
    | .ok x => Calculator.factorial x
    | .error cause => .error cause
  | .group inside => inside.compute answer unit

/-- The value of an expression is finite. -/
def evaluate (expr : Expr) (answer : Float) (unit : AngleUnit) : Except MathError Float :=
  match expr.compute answer unit with
  | .ok x => if x.isFinite then .ok x else .error .notFinite
  | .error cause => .error cause

theorem evaluateOk {expr : Expr} {answer x : Float} {unit : AngleUnit} :
    expr.evaluate answer unit = .ok x ↔ expr.compute answer unit = .ok x ∧ x.isFinite := by
  unfold evaluate
  cases expr.compute answer unit with
  | error cause => simp
  | ok y =>
      by_cases finite : y.isFinite
      · simp only [finite, if_true, Except.ok.injEq]
        exact ⟨fun same => ⟨same, same ▸ finite⟩, fun both => both.1⟩
      · simp only [finite, Bool.false_eq_true, if_false, reduceCtorEq, Except.ok.injEq, false_iff]
        rintro ⟨rfl, other⟩
        exact finite other

end Expr

end Calculator
