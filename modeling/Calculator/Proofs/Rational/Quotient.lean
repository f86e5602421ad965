/-
This file holds the whole quotients of rational numbers.
-/

import Mathlib.Algebra.Order.Field.Basic
import Mathlib.Data.Rat.Cast.Order
import Mathlib.Tactic.Linarith

namespace Calculator.Rational

variable {p q : Rat}

/-- The fraction is dropped, so the result goes toward zero. -/
def truncate (q : Rat) : Int :=
  if q < 0 then -(-q).floor else q.floor

theorem truncateNonneg (nonnegative : 0 ≤ q) : truncate q = q.floor :=
  if_neg (not_lt.mpr nonnegative)

theorem truncateNeg (q : Rat) : truncate (-q) = -truncate q := by
  rcases lt_trichotomy q 0 with below | rfl | above
  · rw [truncateNonneg (by linarith), truncate, if_pos below, neg_neg]
  · decide +kernel
  · rw [truncateNonneg above.le, truncate, if_pos (by linarith), neg_neg]

theorem truncateInt (n : Int) : truncate n = n := by
  rcases le_total 0 n with nonnegative | negative
  · rw [truncateNonneg (by exact_mod_cast nonnegative), Rat.floor_intCast]
  · obtain ⟨m, rfl⟩ : ∃ m, n = -m := ⟨-n, (neg_neg n).symm⟩
    rw [Int.cast_neg, truncateNeg, truncateNonneg (by exact_mod_cast neg_nonpos.mp negative),
      Rat.floor_intCast]

theorem isIntIff : q.isInt ↔ ∃ n : Int, q = n := by
  constructor
  · intro whole
    exact ⟨q.num, (Rat.coe_int_num_of_den_eq_one (beq_iff_eq.mp whole)).symm⟩
  · rintro ⟨n, rfl⟩
    exact beq_iff_eq.mpr (Rat.den_intCast n)

/-- The whole quotient leaves less than the divisor. -/
theorem leftRange (positive : 0 < q) :
    0 ≤ p - q * (p / q).floor ∧ p - q * (p / q).floor < q := by
  have low := Rat.floor_le (p / q)
  have high := Rat.lt_floor_add_one (p / q)
  push_cast at high
  rw [le_div_iff₀ positive] at low
  rw [div_lt_iff₀ positive] at high
  constructor <;> linarith

end Calculator.Rational
