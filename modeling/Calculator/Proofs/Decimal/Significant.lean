/-
This file proves that the significant digits of a number are its nearest multiple of a power of ten.
-/

import Calculator.Decimal.Significant
import Calculator.Proofs.Rational.Order
import Calculator.Proofs.Rational.Rounding
import Mathlib.Tactic.Positivity
import Mathlib.Tactic.Ring

namespace Calculator.Decimal

open Rational

/-- A number has this rounding to a count of significant digits. -/
structure Rounds (count : Nat) (x : Rat) (k N : Int) : Prop where
  decade : InDecade 10 x k
  nearest : NearestEven (x * 10 ^ (count - 1 - k)) N

namespace Rounds

variable {count : Nat} {x : Rat} {k N : Int}

theorem positive (rounds : Rounds count x k N) : 0 < x :=
  rounds.decade.positive (by decide)

/-- The scaled number has its count of digits before the point. -/
theorem scaled (rounds : Rounds count x k N) :
    (10 : Rat) ^ ((count : Int) - 1) ≤ x * 10 ^ (count - 1 - k) ∧
      x * 10 ^ (count - 1 - k) < 10 ^ (count : Int) := by
  obtain ⟨low, high⟩ := rounds.decade
  push_cast at low high
  have scale : (0 : Rat) < 10 ^ (count - 1 - k) := by positivity
  constructor
  · calc (10 : Rat) ^ ((count : Int) - 1) = 10 ^ k * 10 ^ (count - 1 - k) := by
          exact (powerMul (by norm_num) (by ring)).symm
      _ ≤ x * 10 ^ (count - 1 - k) := mul_le_mul_of_nonneg_right low scale.le
  · calc x * 10 ^ (count - 1 - k) < 10 ^ (k + 1) * 10 ^ (count - 1 - k) :=
          mul_lt_mul_of_pos_right high scale
      _ = 10 ^ (count : Int) := powerMul (by norm_num) (by ring)

/-- A scaled number with its count of digits before the point gives its decade. -/
theorem ofScaled (low : (10 : Rat) ^ ((count : Int) - 1) ≤ x * 10 ^ (count - 1 - k))
    (high : x * 10 ^ (count - 1 - k) < 10 ^ (count : Int))
    (nearest : NearestEven (x * 10 ^ (count - 1 - k)) N) : Rounds count x k N := by
  have scale : (0 : Rat) < 10 ^ (count - 1 - k) := by positivity
  refine ⟨⟨?_, ?_⟩, nearest⟩
  · apply le_of_mul_le_mul_right _ scale
    push_cast
    rw [powerMul (by norm_num) (show k + ((count : Int) - 1 - k) = count - 1 by ring)]
    exact low
  · apply lt_of_mul_lt_mul_right _ scale.le
    push_cast
    rw [powerMul (by norm_num) (show k + 1 + ((count : Int) - 1 - k) = count by ring)]
    exact high

/-- The rounding is a natural number with its count of digits, or it reaches the next power of
ten. -/
theorem bounds (rounds : Rounds count x k N) (counted : 0 < count) :
    N = N.toNat ∧ 10 ^ (count - 1) ≤ N.toNat ∧ N.toNat ≤ 10 ^ count := by
  obtain ⟨low, high⟩ := rounds.scaled
  have first : (((10 ^ (count - 1) : Nat) : Int) : Rat) = 10 ^ ((count : Int) - 1) := by
    obtain ⟨less, rfl⟩ := Nat.exists_eq_succ_of_ne_zero counted.ne'
    simp
  have last : (((10 ^ count : Nat) : Int) : Rat) = 10 ^ (count : Int) := by simp
  rw [← first] at low
  rw [← last] at high
  have least := leRound low
  have most := roundLe high.le
  rw [roundEq rounds.nearest] at least most
  have natural : N = N.toNat := (Int.toNat_of_nonneg ((Int.natCast_nonneg _).trans least)).symm
  rw [natural] at least most
  exact ⟨natural, Int.ofNat_le.mp least, Int.ofNat_le.mp most⟩

/-- The rounded value lies in the decade or at its end. -/
theorem value (rounds : Rounds count x k N) (counted : 0 < count) :
    (10 : Rat) ^ k ≤ N * 10 ^ (k - count + 1) ∧ (N : Rat) * 10 ^ (k - count + 1) ≤ 10 ^ (k + 1) := by
  obtain ⟨natural, low, high⟩ := rounds.bounds counted
  have whole : (N : Rat) = N.toNat := by exact_mod_cast congrArg (Int.cast (R := Rat)) natural
  have less : ((count - 1 : Nat) : Int) = (count : Int) - 1 := by omega
  have lowCast : (10 : Rat) ^ ((count : Int) - 1) ≤ N := by
    rw [whole, ← less, zpow_natCast]
    exact_mod_cast low
  have highCast : (N : Rat) ≤ 10 ^ (count : Int) := by
    rw [whole, zpow_natCast]
    exact_mod_cast high
  have scale : (0 : Rat) < 10 ^ (k - count + 1) := by positivity
  constructor
  · calc (10 : Rat) ^ k = 10 ^ ((count : Int) - 1) * 10 ^ (k - count + 1) :=
          (powerMul (by norm_num) (by ring)).symm
      _ ≤ N * 10 ^ (k - count + 1) := mul_le_mul_of_nonneg_right lowCast scale.le
  · calc (N : Rat) * 10 ^ (k - count + 1) ≤ 10 ^ (count : Int) * 10 ^ (k - count + 1) :=
          mul_le_mul_of_nonneg_right highCast scale.le
      _ = 10 ^ (k + 1) := powerMul (by norm_num) (by ring)

/-- The rounded value is more than half of the number, since the rounding is at least one. -/
theorem half (rounds : Rounds count x k N) (counted : 0 < count) :
    x < 2 * (N * 10 ^ (k - count + 1)) := by
  obtain ⟨natural, low, _⟩ := rounds.bounds counted
  have scale : (0 : Rat) < 10 ^ (k - count + 1) := by positivity
  have one : (1 : Rat) ≤ N := by
    rw [natural]
    exact_mod_cast (Nat.one_le_pow _ _ (by decide)).trans low
  have near := rounds.nearest.lower
  calc x = x * 10 ^ (count - 1 - k) * 10 ^ (k - count + 1) :=
        (powerCancel (by norm_num) x (by ring)).symm
    _ < 2 * N * 10 ^ (k - count + 1) := mul_lt_mul_of_pos_right (by linarith) scale
    _ = 2 * (N * 10 ^ (k - count + 1)) := by ring

/-- A larger number has no smaller rounded value. In a higher decade only the end of the lower one
matters. -/
theorem mono {y : Rat} {j M : Int} (first : Rounds count x k N) (second : Rounds count y j M)
    (counted : 0 < count) (le : x ≤ y) :
    (N : Rat) * 10 ^ (k - count + 1) ≤ M * 10 ^ (j - count + 1) := by
  rcases (first.decade.mono (by decide) second.decade le).eq_or_lt with rfl | lower
  · have scaled : x * 10 ^ (count - 1 - k) ≤ y * 10 ^ (count - 1 - k) :=
      mul_le_mul_of_nonneg_right le (by positivity)
    have digits : (N : Rat) ≤ M := by
      exact_mod_cast first.nearest.mono second.nearest scaled
    exact mul_le_mul_of_nonneg_right digits (by positivity)
  · calc (N : Rat) * 10 ^ (k - count + 1) ≤ 10 ^ (k + 1) := (first.value counted).2
      _ ≤ 10 ^ j := zpow_le_zpow_right₀ (by norm_num) lower
      _ ≤ M * 10 ^ (j - count + 1) := (second.value counted).1

end Rounds

variable {count : Nat} {x : Rat} {k N : Int}

theorem roundsExists (count : Nat) (positive : 0 < x) : ∃ k N, Rounds count x k N :=
  ⟨_, _, orderInDecade (by decide) positive, roundNearest _⟩

/-- The start of the search does not matter. -/
theorem significantFromRounds (rounds : Rounds count x k N) (start : Int) :
    significantFrom count x start =
      if N.toNat = 10 ^ count then ⟨10 ^ (count - 1), k + 2 - count⟩
      else ⟨N.toNat, k + 1 - count⟩ := by
  have lead := orderFromEq (show 1 < 10 by decide) rounds.decade
  have rounded := roundEq rounds.nearest
  simp only [significantFrom, lead, rounded, Nat.pow_eq]

theorem significantRounds (rounds : Rounds count x k N) :
    significant count x =
      if N.toNat = 10 ^ count then ⟨10 ^ (count - 1), k + 2 - count⟩
      else ⟨N.toNat, k + 1 - count⟩ :=
  significantFromRounds rounds _

/-- The significant digits stand for the nearest multiple. -/
theorem significantValue (rounds : Rounds count x k N) (counted : 0 < count) :
    (significant count x).value = N * 10 ^ (k - count + 1) := by
  have whole : ((N.toNat : Nat) : Rat) = N := by
    exact_mod_cast congrArg (Int.cast (R := Rat)) (rounds.bounds counted).1.symm
  rw [significantRounds rounds]
  split
  · next carry =>
    rw [value, ← whole, carry]
    obtain ⟨less, rfl⟩ := Nat.exists_eq_succ_of_ne_zero counted.ne'
    have shift : k + 2 - ((less + 1 : Nat) : Int) = (k - (less + 1 : Nat) + 1) + 1 := by ring
    simp only [Nat.succ_eq_add_one, Nat.add_sub_cancel, shift]
    rw [zpow_add_one₀ (by norm_num)]
    push_cast
    ring
  · next plain =>
    rw [value, whole]
    congr 2
    ring

theorem significantZero (count : Nat) : (significant count 0).value = 0 := by
  have power : ¬0 = 10 ^ count := (Nat.pow_pos (by decide)).ne
  have rounded : (roundHalfEven 0).toNat = 0 := by decide +kernel
  simp only [significant, significantFrom, zero_mul, rounded, Nat.pow_eq, if_neg power, value,
    Nat.cast_zero]

theorem significantMono {y : Rat} (counted : 0 < count) (positive : 0 < x) (le : x ≤ y) :
    (significant count x).value ≤ (significant count y).value := by
  obtain ⟨k, N, rounds⟩ := roundsExists count positive
  obtain ⟨j, M, roundsOther⟩ := roundsExists count (positive.trans_le le)
  rw [significantValue rounds counted, significantValue roundsOther counted]
  exact rounds.mono roundsOther counted le

theorem significantHalf (counted : 0 < count) (positive : 0 < x) :
    x < 2 * (significant count x).value := by
  obtain ⟨k, N, rounds⟩ := roundsExists count positive
  rw [significantValue rounds counted]
  exact rounds.half counted

theorem significantPositive (counted : 0 < count) (positive : 0 < x) :
    0 < (significant count x).value := by
  have half := significantHalf counted positive
  linarith

/-- The significant digits have their count. -/
theorem significantBounds (rounds : Rounds count x k N) (counted : 0 < count) :
    10 ^ (count - 1) ≤ (significant count x).coefficient ∧
      (significant count x).coefficient < 10 ^ count := by
  obtain ⟨_, low, high⟩ := rounds.bounds counted
  have grows : 10 ^ (count - 1) < 10 ^ count := Nat.pow_lt_pow_right (by decide) (by omega)
  rw [significantRounds rounds]
  split
  · exact ⟨Nat.le_refl _, grows⟩
  · next plain => exact ⟨low, Nat.lt_of_le_of_ne high plain⟩

end Calculator.Decimal
