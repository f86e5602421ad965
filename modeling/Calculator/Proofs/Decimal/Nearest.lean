/-
This file proves that a decimal number denotes the nearest binary64 number.
-/

import Calculator.Decimal.Basic
import Calculator.Proofs.Binary64.Nearest

namespace Calculator.Decimal

open Binary64

variable {d : Decimal}

/-- The least coefficient is one. -/
theorem powerLeValue (positive : 0 < d.coefficient) : 10 ^ d.exponent ≤ d.value := by
  have one : (1 : Rat) ≤ d.coefficient := by exact_mod_cast positive
  have power : (0 : Rat) < 10 ^ d.exponent := by positivity
  exact le_mul_of_one_le_left power.le one

/-- The bits of the coefficient are at least as many as its digits. -/
theorem valueLtPower (d : Decimal) :
    d.value < 10 ^ (d.exponent + d.coefficient.log2 + 1) := by
  have power : (0 : Rat) < 10 ^ d.exponent := by positivity
  have bits : d.coefficient < 2 ^ (d.coefficient.log2 + 1) := Nat.lt_log2_self
  have digits : 2 ^ (d.coefficient.log2 + 1) ≤ 10 ^ (d.coefficient.log2 + 1) :=
    Nat.pow_le_pow_left (by decide) _
  have below : (d.coefficient : Rat) < 10 ^ (d.coefficient.log2 + 1) := by
    exact_mod_cast bits.trans_le digits
  calc d.value < 10 ^ (d.coefficient.log2 + 1) * 10 ^ d.exponent :=
        mul_lt_mul_of_pos_right below power
    _ = 10 ^ (d.exponent + d.coefficient.log2 + 1) := by
        rw [← zpow_natCast]
        exact Rational.powerMul (by norm_num) (by push_cast; ring)

/-- The exponents that are not computed give the same number. -/
theorem toFloatNearest (d : Decimal) : d.toFloat = nearest d.value := by
  rw [toFloat]
  split
  · next zero =>
    have value : d.value = 0 := by rw [value, zero, Nat.cast_zero, zero_mul]
    rw [value]
    rfl
  · next nonzero =>
    have positive : 0 < d.coefficient := Nat.pos_of_ne_zero nonzero
    split
    · next huge =>
      have above : limit ≤ d.value := by
        calc limit ≤ 2 ^ (1024 : Int) := limitBounds.2.le
          _ ≤ 10 ^ (400 : Int) := by decide +kernel
          _ ≤ 10 ^ d.exponent := zpow_le_zpow_right₀ (by norm_num) huge.le
          _ ≤ d.value := powerLeValue positive
      have valued : 0 < d.value := lt_of_lt_of_le (by positivity) (powerLeValue positive)
      rw [nearestInfinite valued]
      rw [nearestFinite valued, nearestBitsLimit valued, not_lt]
      exact above
    · split
      · next tiny =>
        rw [nearestTiny]
        calc d.value < 10 ^ (d.exponent + d.coefficient.log2 + 1) := valueLtPower d
          _ ≤ 10 ^ (-400 : Int) := zpow_le_zpow_right₀ (by norm_num) (by omega)
          _ ≤ 2 ^ (-1075 : Int) := by decide +kernel
      · rfl

end Calculator.Decimal
