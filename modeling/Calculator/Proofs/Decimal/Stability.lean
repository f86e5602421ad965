/-
This file proves that the significant digits of a binary64 number survive the way through their
nearest binary64 number.
-/

import Calculator.Proofs.Binary64.Nearest
import Calculator.Proofs.Decimal.Significant

namespace Calculator.Decimal

open Binary64 Rational

theorem roundsTen {w z : Rat} {k N : Int} (scaled : w * 10 ^ (9 - k) = z) (low : 10 ^ 9 ≤ z)
    (high : z < 10 ^ 10) (nearest : NearestEven z N) : Rounds 10 w k N := by
  have shift : ((10 : Nat) : Int) - 1 - k = 9 - k := by
    push_cast
    ring
  have power : ((10 : Nat) : Int) - 1 = (9 : Nat) := by decide
  apply Rounds.ofScaled
  · rwa [shift, scaled, power, zpow_natCast]
  · rwa [shift, scaled, zpow_natCast]
  · rwa [shift, scaled]

/-- Just below a power of ten the digits are all zeros after a carry. -/
theorem roundsBelow {w : Rat} {k : Int} (small : w * 10 ^ (9 - k) < 10 ^ 9)
    (close : 10 ^ 9 - w * 10 ^ (9 - k) ≤ 1 / 20) : Rounds 10 w (k - 1) (10 ^ 10) := by
  have finer : w * 10 ^ (9 - (k - 1)) = w * 10 ^ (9 - k) * 10 := by
    rw [show 9 - (k - 1) = 9 - k + 1 by ring, zpow_add_one₀ (by norm_num), mul_assoc]
  apply roundsTen finer (by linarith) (by linarith)
  constructor
  · push_cast
    rw [abs_le]
    constructor <;> linarith
  · intro _
    norm_num

/-- Just above a power of ten the digits are its own. -/
theorem roundsAbove {w : Rat} {k : Int} (large : 10 ^ 10 ≤ w * 10 ^ (9 - k))
    (close : w * 10 ^ (9 - k) < 10 ^ 10 + 1 / 2) : Rounds 10 w (k + 1) (10 ^ 9) := by
  have coarser : w * 10 ^ (9 - (k + 1)) = w * 10 ^ (9 - k) / 10 := by
    rw [show 9 - k = 9 - (k + 1) + 1 by ring, zpow_add_one₀ (by norm_num)]
    ring
  have near : |w * 10 ^ (9 - k) / 10 - (10 ^ 9 : Int)| < 1 / 2 := by
    push_cast
    rw [abs_lt]
    constructor <;> linarith
  apply roundsTen coarser (by linarith) (by linarith)
  exact ⟨near.le, fun tie => absurd tie near.ne⟩

/-- A number near ten significant digits has these digits. Below a power of ten the grid of the
digits is finer, so the number must lie nearer. -/
theorem roundsNear {w : Rat} {k N : Int} (low : 10 ^ 9 ≤ N) (high : N ≤ 10 ^ 10)
    (near : |w * 10 ^ (9 - k) - N| < 1 / 2)
    (edge : N = 10 ^ 9 → N - w * 10 ^ (9 - k) ≤ 1 / 20) :
    ∃ j M : Int, Rounds 10 w j M ∧ (M : Rat) * 10 ^ (j - 9) = N * 10 ^ (k - 9) := by
  obtain ⟨below, above⟩ := abs_lt.mp near
  rcases lt_or_ge (w * 10 ^ (9 - k)) (10 ^ 9) with small | enough
  · -- Only the power of ten itself has neighbours in the decade below.
    have first : N < 10 ^ 9 + 1 := by
      have : (N : Rat) < ((10 ^ 9 + 1 : Int) : Rat) := by
        push_cast
        linarith
      exact_mod_cast this
    obtain rfl : N = 10 ^ 9 := by omega
    have close := edge rfl
    push_cast at close
    refine ⟨k - 1, 10 ^ 10, roundsBelow small close, ?_⟩
    rw [show k - 9 = k - 1 - 9 + 1 by ring, zpow_add_one₀ (by norm_num)]
    push_cast
    ring
  · rcases lt_or_ge (w * 10 ^ (9 - k)) (10 ^ 10) with inside | large
    · exact ⟨k, N, roundsTen rfl enough inside ⟨near.le, fun tie => absurd tie near.ne⟩, rfl⟩
    · -- Only the next power of ten has neighbours in the decade above.
      have last : 10 ^ 10 - 1 < N := by
        have : ((10 ^ 10 - 1 : Int) : Rat) < N := by
          push_cast
          linarith
        exact_mod_cast this
      obtain rfl : N = 10 ^ 10 := by omega
      push_cast at above
      refine ⟨k + 1, 10 ^ 9, roundsAbove large (by linarith), ?_⟩
      rw [show k + 1 - 9 = k - 9 + 1 by ring, zpow_add_one₀ (by norm_num)]
      push_cast
      ring

theorem scaledError {w bound : Rat} {k N : Int} (error : |w - N * 10 ^ (k - 9)| ≤ bound) :
    |w * 10 ^ (9 - k) - N| ≤ bound * 10 ^ (9 - k) := by
  have scale : (0 : Rat) < 10 ^ (9 - k) := by positivity
  have whole : (N : Rat) * 10 ^ (k - 9) * 10 ^ (9 - k) = N :=
    powerCancel (by norm_num) _ (by ring)
  calc |w * 10 ^ (9 - k) - N| = |w - N * 10 ^ (k - 9)| * 10 ^ (9 - k) := by
        rw [← absScale scale, whole]
    _ ≤ bound * 10 ^ (9 - k) := mul_le_mul_of_nonneg_right error scale.le

section

variable {v : Rat} {k N : Int}

/-- The rounded value lies within half of the last digit. -/
theorem roundsTenError (rounds : Rounds 10 v k N) :
    |v - N * 10 ^ (k - 9)| ≤ 10 ^ (k - 9) / 2 := by
  have scale : (0 : Rat) < 10 ^ (k - 9) := by positivity
  have near := rounds.nearest.1
  rw [show ((10 : Nat) : Int) - 1 - k = 9 - k by push_cast; ring] at near
  have whole : v * 10 ^ (9 - k) * 10 ^ (k - 9) = v := powerCancel (by norm_num) _ (by ring)
  calc |v - N * 10 ^ (k - 9)| = |v * 10 ^ (9 - k) - N| * 10 ^ (k - 9) := by
        rw [← absScale scale, whole]
    _ ≤ 1 / 2 * 10 ^ (k - 9) := mul_le_mul_of_nonneg_right near scale.le
    _ = 10 ^ (k - 9) / 2 := by ring

theorem roundsTenBounds (rounds : Rounds 10 v k N) : 10 ^ 9 ≤ N ∧ N ≤ 10 ^ 10 := by
  obtain ⟨natural, low, high⟩ := rounds.bounds (by decide)
  omega

/-- The rounded value lies in the decade or at its end. -/
theorem roundsTenValue (rounds : Rounds 10 v k N) :
    (10 : Rat) ^ k ≤ N * 10 ^ (k - 9) ∧ (N : Rat) * 10 ^ (k - 9) ≤ 10 ^ (k + 1) := by
  have value := rounds.value (by decide)
  rwa [show k - ((10 : Nat) : Int) + 1 = k - 9 by omega] at value

/-- Outside the least decades the spacing is finer than a tenth of the last digit. -/
theorem spacingFine {q : Rat} (positive : 0 < q) (above : -313 ≤ k) (below : q ≤ 10 ^ (k + 1)) :
    (2 : Rat) ^ spacing q ≤ 10 ^ (k - 10) := by
  rcases spacingCases q with least | normal
  · calc (2 : Rat) ^ spacing q = 2 ^ (-1074 : Int) := by rw [least]
      _ ≤ 10 ^ (-323 : Int) := by decide +kernel
      _ ≤ 10 ^ (k - 10) := zpow_le_zpow_right₀ (by norm_num) (by omega)
  · obtain ⟨low, _⟩ := orderInDecade (show 1 < 2 by decide) positive
    push_cast at low
    calc (2 : Rat) ^ spacing q = 2 ^ order 2 q * 2 ^ (-52 : Int) :=
          (powerMul (by norm_num) normal.symm).symm
      _ ≤ 10 ^ (k + 1) * 10 ^ (-11 : Int) := by
          apply mul_le_mul (low.trans below) (by norm_num) (by positivity) (by positivity)
      _ = 10 ^ (k - 10) := powerMul (by norm_num) (by ring)

/-- Below every normal number the spacing is least. -/
theorem spacingLeastBelow {q : Rat} (positive : 0 < q) (below : q < 2 ^ (-1022 : Int)) :
    spacing q = -1074 := by
  have order := orderLt positive below
  have := spacingCases q
  have := spacingLeast q
  omega

/-- The nearest multiple of the least step to a number near a multiple is this multiple. -/
theorem stepsNear {q : Rat} {m : Int} (least : spacing q = -1074)
    (near : |m * 2 ^ (-1074 : Int) - q| < 2 ^ (-1075 : Int)) : steps q = m := by
  have scale : (0 : Rat) < 2 ^ (1074 : Int) := by positivity
  have scaled : |q * 2 ^ (1074 : Int) - m| < 1 / 2 := by
    calc |q * 2 ^ (1074 : Int) - m| = |m * 2 ^ (-1074 : Int) - q| * 2 ^ (1074 : Int) := by
          rw [← absScale scale, powerCancel (by norm_num) _ (by norm_num), abs_sub_comm]
      _ < 2 ^ (-1075 : Int) * 2 ^ (1074 : Int) := mul_lt_mul_of_pos_right near scale
      _ = 1 / 2 := by
          rw [powerMul (by norm_num) (show (-1075 : Int) + 1074 = -1 by decide)]
          norm_num
  rw [steps, least, neg_neg]
  exact roundEq ⟨scaled.le, fun tie => absurd tie scaled.ne⟩

/-- The rounded value has this nearest multiple of its spacing. -/
def multiple (k N : Int) : Rat :=
  steps (N * 10 ^ (k - 9)) * 2 ^ spacing (N * 10 ^ (k - 9))

theorem roundsTenPositive (rounds : Rounds 10 v k N) : (0 : Rat) < N * 10 ^ (k - 9) :=
  lt_of_lt_of_le (by positivity) (roundsTenValue rounds).1

/-- Outside the least decades the multiple lies within a twentieth of the last digit. -/
theorem multipleCoarse (rounds : Rounds 10 v k N) (above : -313 ≤ k) :
    |multiple k N * 10 ^ (9 - k) - N| ≤ 1 / 20 := by
  have positive := roundsTenPositive rounds
  have fine := spacingFine positive above (roundsTenValue rounds).2
  have error : |multiple k N - N * 10 ^ (k - 9)| ≤ 10 ^ (k - 10) / 2 :=
    (nearestError _).trans (by linarith)
  calc |multiple k N * 10 ^ (9 - k) - N| ≤ 10 ^ (k - 10) / 2 * 10 ^ (9 - k) := scaledError error
    _ = 1 / 20 := by
        rw [div_mul_eq_mul_div, powerMul (by norm_num) (show k - 10 + (9 - k) = -1 by ring)]
        norm_num

/-- In this decade the multiple lies within half of the last digit. -/
theorem multipleMiddle (rounds : Rounds 10 v (-314) N) :
    |multiple (-314) N * 10 ^ (9 - (-314) : Int) - N| < 1 / 2 := by
  have positive := roundsTenPositive rounds
  have below : (N : Rat) * 10 ^ (-314 - 9 : Int) < 2 ^ (-1022 : Int) :=
    lt_of_le_of_lt (roundsTenValue rounds).2 (by decide +kernel)
  have least := spacingLeastBelow positive below
  have error : |multiple (-314) N - N * 10 ^ (-314 - 9 : Int)| ≤ 2 ^ (-1074 : Int) / 2 := by
    have nearest := nearestError (N * 10 ^ (-314 - 9 : Int))
    rw [least] at nearest
    rwa [multiple, least]
  calc |multiple (-314) N * 10 ^ (9 - (-314) : Int) - N|
      ≤ 2 ^ (-1074 : Int) / 2 * 10 ^ (9 - (-314) : Int) := scaledError error
    _ < 1 / 2 := by decide +kernel

/-- The power of ten at the start of this decade lies near a multiple of the least step. -/
theorem multipleEdge : ((10 ^ 9 : Int) : Rat) - multiple (-314) (10 ^ 9) * 10 ^ (9 - (-314) : Int) ≤
    1 / 20 := by
  decide +kernel

/-- In the least decades the multiple is the number itself. -/
theorem multipleFine {m : Int} (rounds : Rounds 10 ((m : Rat) * 2 ^ (-1074 : Int)) k N)
    (below : k ≤ -315) :
    multiple k N = (m : Rat) * 2 ^ (-1074 : Int) := by
  have positive := roundsTenPositive rounds
  have small : (N : Rat) * 10 ^ (k - 9) < 2 ^ (-1022 : Int) := by
    calc (N : Rat) * 10 ^ (k - 9) ≤ 10 ^ (k + 1) := (roundsTenValue rounds).2
      _ ≤ 10 ^ (-314 : Int) := zpow_le_zpow_right₀ (by norm_num) (by omega)
      _ < 2 ^ (-1022 : Int) := by decide +kernel
  have least := spacingLeastBelow positive small
  have near : |(m : Rat) * 2 ^ (-1074 : Int) - N * 10 ^ (k - 9)| < 2 ^ (-1075 : Int) := by
    have last : (10 : Rat) ^ (k - 9) ≤ 10 ^ (-324 : Int) :=
      zpow_le_zpow_right₀ (by norm_num) (by omega)
    calc |(m : Rat) * 2 ^ (-1074 : Int) - N * 10 ^ (k - 9)| ≤ 10 ^ (k - 9) / 2 :=
          roundsTenError rounds
      _ ≤ 10 ^ (-324 : Int) / 2 := by linarith
      _ < 2 ^ (-1075 : Int) := by decide +kernel
  rw [multiple, least, stepsNear least near]

/-- The significant digits of a multiple of the least step are the digits of the nearest multiple of
its rounded value. -/
theorem multipleRounds {m : Int} (rounds : Rounds 10 ((m : Rat) * 2 ^ (-1074 : Int)) k N) :
    ∃ j M : Int, Rounds 10 (multiple k N) j M ∧ (M : Rat) * 10 ^ (j - 9) = N * 10 ^ (k - 9) := by
  obtain ⟨low, high⟩ := roundsTenBounds rounds
  rcases lt_trichotomy k (-314) with least | rfl | above
  · rw [multipleFine rounds (by omega)]
    exact ⟨k, N, rounds, rfl⟩
  · apply roundsNear low high (multipleMiddle rounds)
    rintro rfl
    exact multipleEdge
  · have near := multipleCoarse rounds (by omega)
    apply roundsNear low high (near.trans_lt (by norm_num))
    intro _
    rw [abs_sub_comm] at near
    exact (le_abs_self _).trans near

end

end Calculator.Decimal
