/-
This file proves that the order of a number is the exponent of the last power below it.
-/

import Calculator.Rational.Order
import Mathlib.Algebra.Order.Field.Power
import Mathlib.Data.Rat.Cast.Order

namespace Calculator.Rational

theorem powerMul {base : Rat} (nonzero : base ≠ 0) {j k n : Int} (sum : j + k = n) :
    base ^ j * base ^ k = base ^ n := by
  rw [← sum, zpow_add₀ nonzero]

/-- A scale and its inverse cancel. -/
theorem powerCancel {base : Rat} (nonzero : base ≠ 0) (x : Rat) {j k : Int} (sum : j + k = 0) :
    x * base ^ j * base ^ k = x := by
  rw [mul_assoc, powerMul nonzero sum, zpow_zero, mul_one]

/-- The number lies from one power up to the next power. -/
def InDecade (base : Nat) (x : Rat) (k : Int) : Prop :=
  (base : Rat) ^ k ≤ x ∧ x < (base : Rat) ^ (k + 1)

variable {base : Nat} {x : Rat}

theorem InDecade.positive {k : Int} (large : 1 < base) (inside : InDecade base x k) : 0 < x := by
  have above : (0 : Rat) < base := by
    have := Nat.lt_trans Nat.zero_lt_one large
    exact_mod_cast this
  exact lt_of_lt_of_le (zpow_pos above k) inside.1

/-- A larger number has no lower decade. -/
theorem InDecade.mono {y : Rat} {j k : Int} (large : 1 < base) (first : InDecade base x j)
    (second : InDecade base y k) (le : x ≤ y) : j ≤ k := by
  have grows : (1 : Rat) < base := by exact_mod_cast large
  have powers : (base : Rat) ^ j < (base : Rat) ^ (k + 1) :=
    lt_of_le_of_lt (le_trans first.1 le) second.2
  have := (zpow_lt_zpow_iff_right₀ grows).mp powers
  omega

theorem InDecade.unique {j k : Int} (large : 1 < base) (first : InDecade base x j)
    (second : InDecade base x k) : j = k :=
  Int.le_antisymm (first.mono large second (le_refl x)) (second.mono large first (le_refl x))

/-- The search stops at a power at or below the number. -/
theorem descendLe (large : 1 < base) (positive : 0 < x) (start : Int) :
    (base : Rat) ^ descend base x start ≤ x := by
  induction start using descend.induct base x with
  | case1 exponent above inductionHypothesis =>
      rw [descend, dif_pos above]
      exact inductionHypothesis
  | case2 exponent stopped =>
      rw [descend, dif_neg stopped]
      exact not_lt.mp fun above => stopped ⟨large, positive, above⟩

/-- The search stops below the next power. -/
theorem ascendInDecade (large : 1 < base) {start : Int} (below : (base : Rat) ^ start ≤ x) :
    InDecade base x (ascend base x start) := by
  induction start using ascend.induct base x with
  | case1 exponent next inductionHypothesis =>
      rw [ascend, dif_pos next]
      exact inductionHypothesis next.2
  | case2 exponent stopped =>
      rw [ascend, dif_neg stopped]
      exact ⟨below, not_le.mp fun next => stopped ⟨large, next⟩⟩

theorem orderFromInDecade (large : 1 < base) (positive : 0 < x) (start : Int) :
    InDecade base x (orderFrom base x start) :=
  ascendInDecade large (descendLe large positive start)

theorem orderInDecade (large : 1 < base) (positive : 0 < x) : InDecade base x (order base x) :=
  orderFromInDecade large positive _

theorem orderFromEq {k : Int} (large : 1 < base) (inside : InDecade base x k) (start : Int) :
    orderFrom base x start = k :=
  (orderFromInDecade large (inside.positive large) start).unique large inside

end Calculator.Rational
