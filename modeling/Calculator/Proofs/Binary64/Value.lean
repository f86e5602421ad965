/-
This file proves how the exact value of a number follows from its sign and its magnitude.
-/

import Calculator.Proofs.Binary64.Bits
import Calculator.Proofs.Rational.Order

namespace Calculator.Binary64

variable {x : Float}

theorem magnitudeNonneg (x : Float) : 0 ≤ magnitude x := by
  unfold magnitude
  positivity

theorem magnitudePos : 0 < magnitude x ↔ significand x ≠ 0 := by
  have power : (0 : Rat) < 2 ^ exponent x := by positivity
  rw [magnitude, mul_pos_iff_of_pos_right power, Nat.cast_pos, Nat.pos_iff_ne_zero]

theorem absValue (x : Float) : |value x| = magnitude x := by
  unfold value
  split
  · rw [abs_neg, abs_of_nonneg (magnitudeNonneg x)]
  · rw [abs_of_nonneg (magnitudeNonneg x)]

theorem valueZero : value x = 0 ↔ significand x = 0 := by
  rw [← abs_eq_zero, absValue, ← not_iff_not]
  exact (magnitudeNonneg x).lt_iff_ne'.symm.trans magnitudePos

/-- The sign bit of a number that is not zero is the sign of its value. -/
theorem valueNeg (nonzero : significand x ≠ 0) : value x < 0 ↔ negative x = true := by
  have positive := magnitudePos.mpr nonzero
  unfold value
  split
  · next minus => simp [minus, positive]
  · next plus => simp [plus, positive.le]

theorem significandNeg (finite : x.isFinite) : significand (-x) = significand x := by
  simp only [significand, fieldNeg finite, fractionNeg finite]

theorem magnitudeNeg (finite : x.isFinite) : magnitude (-x) = magnitude x := by
  simp only [magnitude, exponent, significandNeg finite, fieldNeg finite]

theorem valueOpposite (finite : x.isFinite) : value (-x) = -value x := by
  rw [value, value, negativeNeg finite, magnitudeNeg finite]
  cases negative x <;> simp

/-- Every finite number is a multiple of the least step. -/
theorem magnitudeWhole (x : Float) : ∃ m : Int, magnitude x = m * 2 ^ (-1074 : Int) := by
  obtain ⟨shift, above⟩ : ∃ shift : Nat, exponent x = shift + -1074 := by
    refine ⟨(exponent x + 1074).toNat, ?_⟩
    unfold exponent
    split <;> omega
  refine ⟨significand x * 2 ^ shift, ?_⟩
  rw [magnitude, above, zpow_add₀ (by norm_num), zpow_natCast, Int.cast_mul, Int.cast_pow,
    Int.cast_natCast, Int.cast_ofNat, mul_assoc]

theorem magnitudeStep (positive : 0 < magnitude x) : 2 ^ (-1074 : Int) ≤ magnitude x := by
  have step : (0 : Rat) < 2 ^ (-1074 : Int) := by positivity
  obtain ⟨m, whole⟩ := magnitudeWhole x
  rw [whole] at positive ⊢
  have one : (1 : Rat) ≤ m := by exact_mod_cast pos_of_mul_pos_left positive step.le
  exact le_mul_of_one_le_left step.le one

/-- The finite numbers lie below the power of two after the greatest one. -/
theorem magnitudeLt (finite : x.isFinite) : magnitude x < 2 ^ (1024 : Int) := by
  have range := fieldRange x
  have small := fractionRange x
  have field := finiteIff.mp finite
  have size : significand x < 2 ^ 53 := by
    unfold significand
    split <;> omega
  have order : exponent x ≤ 971 := by
    unfold exponent
    split <;> omega
  have sizeCast : (significand x : Rat) < 2 ^ (53 : Int) := by exact_mod_cast size
  have power : (0 : Rat) < 2 ^ exponent x := by positivity
  calc magnitude x < 2 ^ (53 : Int) * 2 ^ exponent x := mul_lt_mul_of_pos_right sizeCast power
    _ ≤ 2 ^ (53 : Int) * 2 ^ (971 : Int) := by
        apply mul_le_mul_of_nonneg_left _ (by positivity)
        exact zpow_le_zpow_right₀ (by norm_num) order
    _ = 2 ^ (1024 : Int) := Rational.powerMul (by norm_num) (by decide)

end Calculator.Binary64
