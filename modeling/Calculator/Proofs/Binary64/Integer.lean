/-
This file proves that the arithmetic of integers is exact up to the 53rd power of two.
-/

import Calculator.Proofs.Binary64.Exact

namespace Calculator.Binary64

open Rational

/-- The number is finite, and its value is this integer. -/
structure IsInteger (x : Float) (n : Int) : Prop where
  finite : x.isFinite
  value : value x = n

instance (x : Float) (n : Int) : Decidable (IsInteger x n) :=
  decidable_of_iff (x.isFinite ∧ value x = n)
    ⟨fun ⟨finite, value⟩ => ⟨finite, value⟩, fun ⟨finite, value⟩ => ⟨finite, value⟩⟩

section Grid

variable {n : Nat} {e : Int}

/-- The spacing of a multiple of a power of two divides the multiple if its factor has at most 53
digits. -/
theorem gridScaled (positive : 0 < n) (small : n ≤ 2 ^ 53) (least : -1074 ≤ e) :
    ∃ m : Int, (n : Rat) * 2 ^ e * 2 ^ (-spacing (n * 2 ^ e)) = m := by
  have scale : (0 : Rat) < 2 ^ e := by positivity
  have count : (0 : Rat) < n := by exact_mod_cast positive
  have above : (0 : Rat) < n * 2 ^ e := mul_pos count scale
  rcases small.lt_or_eq with inside | rfl
  · have below : (n : Rat) * 2 ^ e < 2 ^ (53 + e) := by
      rw [zpow_add₀ (by norm_num)]
      exact mul_lt_mul_of_pos_right (by exact_mod_cast inside) scale
    have order := orderLt above below
    obtain ⟨k, fine⟩ : ∃ k : Nat, e + -spacing (n * 2 ^ e) = k := by
      have := spacingCases (n * 2 ^ e)
      exact ⟨(e + -spacing (n * 2 ^ e)).toNat, by omega⟩
    refine ⟨n * 2 ^ k, ?_⟩
    rw [mul_assoc, powerMul (by norm_num) fine, zpow_natCast]
    push_cast
    rfl
  · have power : ((2 ^ 53 : Nat) : Rat) * 2 ^ e = 2 ^ (53 + e) := by
      rw [zpow_add₀ (by norm_num)]
      norm_num
    rw [power] at above ⊢
    have low : 53 + e ≤ order 2 (2 ^ (53 + e)) := leOrder le_rfl
    have high : order 2 (2 ^ (53 + e)) < 54 + e :=
      orderLt above (zpow_lt_zpow_right₀ (by norm_num) (by omega))
    have coarse : 53 + e + -spacing (2 ^ (53 + e)) = 52 := by
      have := spacingCases (2 ^ (53 + e))
      have := orderLeSpacing (2 ^ (53 + e))
      omega
    refine ⟨2 ^ 52, ?_⟩
    rw [powerMul (by norm_num) coarse]
    norm_num

/-- A multiple of a power of two is its own nearest number if its factor has at most 53 digits. -/
theorem nearestGrid (small : n ≤ 2 ^ 53) (least : -1074 ≤ e) (inside : n * 2 ^ e < limit) :
    (nearest (n * 2 ^ e)).isFinite ∧ value (nearest (n * 2 ^ e)) = n * 2 ^ e := by
  rcases Nat.eq_zero_or_pos n with rfl | positive
  · rw [Nat.cast_zero, zero_mul, nearestZero]
    exact ⟨by decide, valueNothing⟩
  · have above : (0 : Rat) < n * 2 ^ e := by positivity
    obtain ⟨m, scaled⟩ := gridScaled positive small least
    refine ⟨(nearestFinite above).mpr ((nearestBitsLimit above).mpr inside), ?_⟩
    rw [nearestValue above inside, steps, scaled, roundInt, ← scaled,
      powerCancel (by norm_num) _ (neg_add_cancel _)]

end Grid

/-- A small integer is its own nearest number. -/
theorem nearestInteger {n : Nat} (small : n ≤ 2 ^ 53) : IsInteger (nearest n) n := by
  have inside : (n : Rat) * 2 ^ (0 : Int) < limit := by
    have bounded : (n : Rat) ≤ 2 ^ (53 : Int) := by exact_mod_cast small
    rw [zpow_zero, mul_one]
    exact bounded.trans_lt (powerLtLimit (by decide))
  obtain ⟨finite, exact⟩ := nearestGrid small (by decide) inside
  rw [zpow_zero, mul_one] at finite exact
  exact ⟨finite, exact⟩

theorem IsInteger.neg {x : Float} {n : Int} (integer : IsInteger x n) : IsInteger (-x) (-n) where
  finite := finiteNeg integer.finite
  value := by rw [valueOpposite integer.finite, integer.value, Int.cast_neg]

/-- Every small integer is the value of a number. -/
theorem integerExists {n : Int} (small : n.natAbs ≤ 2 ^ 53) : ∃ x, IsInteger x n := by
  have nearest := nearestInteger small
  rcases n.natAbs_eq with plus | minus
  · rw [← plus] at nearest
    exact ⟨_, nearest⟩
  · have opposite := nearest.neg
    rw [← minus] at opposite
    exact ⟨_, opposite⟩

namespace IsInteger

variable {x y : Float} {m n : Int}

theorem add (left : IsInteger x m) (right : IsInteger y n) (small : (m + n).natAbs ≤ 2 ^ 53) :
    IsInteger (x + y) (m + n) := by
  obtain ⟨z, sum⟩ := integerExists small
  obtain ⟨finite, exact⟩ := addExact left.finite right.finite sum.finite
    (by rw [sum.value, left.value, right.value, Int.cast_add])
  exact ⟨finite, exact.trans sum.value⟩

theorem sub (left : IsInteger x m) (right : IsInteger y n) (small : (m - n).natAbs ≤ 2 ^ 53) :
    IsInteger (x - y) (m - n) := by
  obtain ⟨z, difference⟩ := integerExists small
  obtain ⟨finite, exact⟩ := subExact left.finite right.finite difference.finite
    (by rw [difference.value, left.value, right.value, Int.cast_sub])
  exact ⟨finite, exact.trans difference.value⟩

theorem mul (left : IsInteger x m) (right : IsInteger y n) (small : (m * n).natAbs ≤ 2 ^ 53) :
    IsInteger (x * y) (m * n) := by
  obtain ⟨z, product⟩ := integerExists small
  obtain ⟨finite, exact⟩ := mulExact left.finite right.finite product.finite
    (by rw [product.value, left.value, right.value, Int.cast_mul])
  exact ⟨finite, exact.trans product.value⟩

end IsInteger

end Calculator.Binary64
