/-
This file proves that a decimal number without trailing zeros is the only one with its value.
-/

import Calculator.Decimal.Basic
import Mathlib.Algebra.Order.Field.Power
import Mathlib.Data.Rat.Cast.Order
import Mathlib.Tactic.NormNum
import Mathlib.Tactic.Ring

namespace Calculator.Decimal

/-- The last digit is not zero. -/
def Trimmed (d : Decimal) : Prop :=
  d.coefficient % 10 ≠ 0

variable {d e : Decimal}

theorem trimValue (d : Decimal) : d.trim.value = d.value := by
  induction d using trim.induct with
  | case1 d zero inductionHypothesis =>
      have exact : d.coefficient = 10 * (d.coefficient / 10) := by omega
      have exactCast : (d.coefficient : Rat) = 10 * (d.coefficient / 10 : Nat) := by
        exact_mod_cast exact
      rw [trim, dif_pos zero, inductionHypothesis, value, value, exactCast]
      simp only
      rw [zpow_add_one₀ (by norm_num)]
      ring
  | case2 d last => rw [trim, dif_neg last]

theorem trimTrimmed (positive : 0 < d.coefficient) : d.trim.Trimmed := by
  induction d using trim.induct with
  | case1 d zero inductionHypothesis =>
      rw [trim, dif_pos zero]
      apply inductionHypothesis
      show 0 < d.coefficient / 10
      omega
  | case2 d last =>
      rw [trim, dif_neg last]
      exact fun zero => last ⟨positive, zero⟩

theorem trimCoefficient (d : Decimal) : d.trim.coefficient ≤ d.coefficient := by
  induction d using trim.induct with
  | case1 d zero inductionHypothesis =>
      rw [trim, dif_pos zero]
      exact inductionHypothesis.trans (Nat.div_le_self _ _)
  | case2 d last => rw [trim, dif_neg last]

/-- A coarser number of the same value adds a zero. -/
theorem exponentLe (trimmed : d.Trimmed) (same : d.value = e.value) :
    e.exponent ≤ d.exponent := by
  by_contra finer
  obtain ⟨more, gap⟩ : ∃ more : Nat, e.exponent = d.exponent + (more + 1 : Nat) :=
    ⟨(e.exponent - d.exponent - 1).toNat, by omega⟩
  have power : (10 : Rat) ^ d.exponent ≠ 0 := zpow_ne_zero _ (by norm_num)
  rw [value, value, gap, zpow_add₀ (by norm_num), zpow_natCast] at same
  have coefficients : (d.coefficient : Rat) = e.coefficient * 10 ^ (more + 1) := by
    apply mul_right_cancel₀ power
    rw [same]
    ring
  have naturals : d.coefficient = e.coefficient * 10 ^ (more + 1) := by
    exact_mod_cast coefficients
  apply trimmed
  rw [naturals, pow_succ, ← mul_assoc, Nat.mul_mod_left]

theorem trimmedUnique (first : d.Trimmed) (second : e.Trimmed) (same : d.value = e.value) :
    d = e := by
  have exponents : d.exponent = e.exponent :=
    le_antisymm (exponentLe second same.symm) (exponentLe first same)
  have power : (10 : Rat) ^ e.exponent ≠ 0 := zpow_ne_zero _ (by norm_num)
  rw [value, value, exponents] at same
  have coefficients : (d.coefficient : Rat) = e.coefficient := mul_right_cancel₀ power same
  have naturals : d.coefficient = e.coefficient := by exact_mod_cast coefficients
  cases d
  cases e
  simp_all

end Calculator.Decimal
