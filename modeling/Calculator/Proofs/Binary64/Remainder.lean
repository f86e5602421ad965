/-
This file holds the remainder of two numbers and proves that it is exact.
-/

import Calculator.Proofs.Binary64.Closure
import Calculator.Proofs.Binary64.Integer
import Calculator.Proofs.Rational.Quotient

namespace Calculator.Binary64

open Rational

/-- The remainder of a division toward zero has the sign of the dividend. -/
def remainder (x y : Float) : Float :=
  let left := nearest (magnitude x - magnitude y * (magnitude x / magnitude y).floor)
  if negative x then -left else left

section Size

variable {x y : Float}

/-- A size is a multiple of each finer power of two. -/
theorem magnitudeSteps {s : Int} (above : s ≤ exponent x) : ∃ m : Int, magnitude x = m * 2 ^ s := by
  obtain ⟨m, multiple, _⟩ := valueSteps above
  have scale : (0 : Rat) < 2 ^ s := by positivity
  refine ⟨|m|, ?_⟩
  rw [← absValue, multiple, abs_mul, abs_of_pos scale, Int.cast_abs]

theorem magnitudeDigits (x : Float) : magnitude x < 2 ^ (53 : Int) * 2 ^ exponent x := by
  have digits : (significand x : Rat) < 2 ^ (53 : Int) := by exact_mod_cast significandRange x
  exact mul_lt_mul_of_pos_right digits (by positivity)

theorem magnitudeInside (finite : x.isFinite) : magnitude x < limit := by
  have digits : (significand x : Rat) ≤ 2 ^ 53 - 1 := by
    have range := significandRange x
    have whole : ((significand x + 1 : Nat) : Rat) ≤ (2 ^ 53 : Nat) := by exact_mod_cast range
    push_cast at whole
    linarith
  calc magnitude x ≤ (2 ^ 53 - 1) * 2 ^ (971 : Int) :=
        mul_le_mul digits (zpow_le_zpow_right₀ (by norm_num) (exponentGreatest finite))
          (by positivity) (by norm_num)
    _ < limit := mul_lt_mul_of_pos_right (by norm_num) (by positivity)

/-- What the whole quotient leaves lies on the finer one of the two grids, and it needs no more
digits there than the coarser number has. -/
theorem leftExact (finite : x.isFinite) (positive : 0 < magnitude y) :
    let left := magnitude x - magnitude y * (magnitude x / magnitude y).floor
    (nearest left).isFinite ∧ value (nearest left) = left := by
  intro left
  obtain ⟨low, high⟩ := leftRange (p := magnitude x) positive
  have count : (0 : Rat) ≤ (magnitude x / magnitude y).floor := by
    have quotient : ((0 : Int) : Rat) ≤ magnitude x / magnitude y := by
      exact_mod_cast div_nonneg (magnitudeNonneg x) positive.le
    exact_mod_cast Rat.le_floor_iff.mpr quotient
  have shrinks : left ≤ magnitude x := by
    have whole := mul_nonneg positive.le count
    show magnitude x - _ ≤ magnitude x
    linarith
  obtain ⟨e, least, fineLeft, fineRight, digits⟩ : ∃ e, -1074 ≤ e ∧ e ≤ exponent x ∧
      e ≤ exponent y ∧ left < 2 ^ (53 : Int) * 2 ^ e := by
    rcases le_total (exponent x) (exponent y) with fine | coarse
    · exact ⟨exponent x, exponentLeast x, le_rfl, fine, shrinks.trans_lt (magnitudeDigits x)⟩
    · exact ⟨exponent y, exponentLeast y, coarse, le_rfl, high.trans (magnitudeDigits y)⟩
  have scale : (0 : Rat) < 2 ^ e := by positivity
  obtain ⟨m, dividend⟩ := magnitudeSteps fineLeft
  obtain ⟨k, divisor⟩ := magnitudeSteps fineRight
  obtain ⟨n, multiple⟩ : ∃ n : Nat, left = n * 2 ^ e := by
    have factored : left = ((m - k * (magnitude x / magnitude y).floor : Int) : Rat) * 2 ^ e := by
      show magnitude x - magnitude y * (magnitude x / magnitude y).floor = _
      generalize (magnitude x / magnitude y).floor = f
      rw [dividend, divisor]
      push_cast
      ring
    have nonnegative : 0 ≤ left := low
    rw [factored, mul_nonneg_iff_of_pos_right scale] at nonnegative
    have integral : 0 ≤ m - k * (magnitude x / magnitude y).floor := by exact_mod_cast nonnegative
    obtain ⟨n, same⟩ := Int.eq_ofNat_of_zero_le integral
    exact ⟨n, by rw [factored, same, Int.cast_natCast]⟩
  have small : n ≤ 2 ^ 53 := by
    rw [multiple, mul_lt_mul_iff_left₀ scale] at digits
    have below : n < 2 ^ 53 := by exact_mod_cast digits
    exact below.le
  have inside : left < limit := shrinks.trans_lt (magnitudeInside finite)
  rw [multiple] at inside ⊢
  exact nearestGrid small least inside

/-- The remainder is what the quotient toward zero leaves, and it is not rounded. -/
theorem remainderExact (finite : x.isFinite) (nonzero : value y ≠ 0) :
    (remainder x y).isFinite ∧
      value (remainder x y) = value x - value y * truncate (value x / value y) := by
  have positive : 0 < magnitude y := by
    rw [← absValue]
    exact abs_pos.mpr nonzero
  obtain ⟨finiteLeft, exact⟩ := leftExact finite positive
  have quotient : truncate (magnitude x / magnitude y) = (magnitude x / magnitude y).floor :=
    truncateNonneg (div_nonneg (magnitudeNonneg x) positive.le)
  rw [← quotient] at finiteLeft exact
  rw [remainder, ← quotient]
  -- The sign of the divisor changes the sign of the quotient too.
  have turned : value y * truncate (magnitude x / value y) =
      magnitude y * truncate (magnitude x / magnitude y) := by
    rw [value]
    split
    · rw [div_neg, truncateNeg]
      push_cast
      ring
    · rfl
  rw [value.eq_1 x]
  cases negative x with
  | true =>
      simp only [if_true]
      refine ⟨finiteNeg finiteLeft, ?_⟩
      rw [valueOpposite finiteLeft, exact, neg_div, truncateNeg, ← turned]
      push_cast
      ring
  | false =>
      simp only [Bool.false_eq_true, if_false]
      exact ⟨finiteLeft, by rw [exact, turned]⟩

/-- A remainder is smaller than the divisor. -/
theorem remainderRange (finite : x.isFinite) (nonzero : value y ≠ 0) :
    |value (remainder x y)| < |value y| := by
  rw [absValue, absValue]
  have positive : 0 < magnitude y := by
    rw [← absValue]
    exact abs_pos.mpr nonzero
  obtain ⟨finiteLeft, exact⟩ := leftExact finite positive
  obtain ⟨low, high⟩ := leftRange (p := magnitude x) positive
  have size : magnitude (remainder x y) =
      magnitude x - magnitude y * (magnitude x / magnitude y).floor := by
    rw [← exact] at low
    rw [← exact, ← abs_of_nonneg low, absValue, remainder]
    split
    · rw [magnitudeNeg finiteLeft]
    · rfl
  rw [size]
  exact high

/-- Nothing remains exactly if the quotient is an integer. -/
theorem remainderZeroIff (finite : x.isFinite) (nonzero : value y ≠ 0) :
    remainder x y == 0 ↔ (value x / value y).isInt := by
  obtain ⟨finiteRemainder, exact⟩ := remainderExact finite nonzero
  rw [equalZeroIff finiteRemainder, exact, isIntIff, sub_eq_zero, mul_comm,
    ← div_eq_iff nonzero]
  constructor
  · intro whole
    exact ⟨_, whole⟩
  · rintro ⟨n, whole⟩
    rw [whole, truncateInt]

end Size

end Calculator.Binary64
