/-
This file proves that the nearest number is the nearest multiple of its spacing.
-/

import Calculator.Binary64.Nearest
import Calculator.Proofs.Binary64.Bits
import Calculator.Proofs.Binary64.Value
import Calculator.Proofs.Rational.Order
import Calculator.Proofs.Rational.Rounding

namespace Calculator.Binary64

open Rational

section Patterns

variable {b : Nat}

/-- The patterns up to the infinity are numbers without a sign. -/
theorem toBitsPattern (range : b ≤ infinityBits) :
    (Float.ofBits (UInt64.ofNat b)).toBits.toNat = b := by
  rw [infinityBits] at range
  have size : (UInt64.ofNat b).toNat = b := by
    rw [UInt64.toNat_ofNat']
    omega
  rw [toBitsOfBits, size]
  apply notNaNBits
  show (UInt64.ofNat b).toNat / _ % _ = _ → (UInt64.ofNat b).toNat % _ = 0
  rw [size]
  omega

theorem fieldPattern (range : b ≤ infinityBits) :
    field (Float.ofBits (UInt64.ofNat b)) = b / 0x10000000000000 := by
  rw [field, toBitsPattern range]
  rw [infinityBits] at range
  omega

theorem fractionPattern (range : b ≤ infinityBits) :
    fraction (Float.ofBits (UInt64.ofNat b)) = b % 0x10000000000000 := by
  rw [fraction, toBitsPattern range]

theorem negativePattern (range : b ≤ infinityBits) :
    negative (Float.ofBits (UInt64.ofNat b)) = false := by
  rw [negative, toBitsPattern range]
  rw [infinityBits] at range
  exact decide_eq_false (by omega)

theorem finitePattern (range : b ≤ infinityBits) :
    (Float.ofBits (UInt64.ofNat b)).isFinite ↔ b < infinityBits := by
  rw [finiteIff, fieldPattern range]
  rw [infinityBits] at range ⊢
  omega

/-- The pattern counts the steps of a spacing from the least pattern with this spacing, and it may
reach the next spacing. -/
theorem magnitudePattern {m n : Nat} (bounded : n ≤ 0x20000000000000)
    (normal : m = 0 ∨ 0x10000000000000 ≤ n) (finite : m * 0x10000000000000 + n < infinityBits) :
    magnitude (Float.ofBits (UInt64.ofNat (m * 0x10000000000000 + n))) =
      n * 2 ^ ((m : Int) - 1074) := by
  have range := finite.le
  rw [magnitude, significand, exponent, fieldPattern range, fractionPattern range]
  rw [infinityBits] at finite
  by_cases subnormal : n < 0x10000000000000
  · obtain rfl : m = 0 := by omega
    have field : (0 * 0x10000000000000 + n) / 0x10000000000000 = 0 := by omega
    have fraction : (0 * 0x10000000000000 + n) % 0x10000000000000 = n := by omega
    rw [field, fraction, if_pos rfl, if_pos rfl]
    norm_num
  · by_cases carry : n = 0x20000000000000
    · subst carry
      have field : (m * 0x10000000000000 + 0x20000000000000) / 0x10000000000000 = m + 2 := by omega
      have fraction : (m * 0x10000000000000 + 0x20000000000000) % 0x10000000000000 = 0 := by omega
      rw [field, fraction, if_neg (by omega), if_neg (by omega)]
      have shift : ((m + 2 : Nat) : Int) - 1075 = (m : Int) - 1074 + 1 := by push_cast; ring
      rw [shift, zpow_add_one₀ (by norm_num)]
      norm_num
      ring
    · have field : (m * 0x10000000000000 + n) / 0x10000000000000 = m + 1 := by omega
      have fraction : 0x10000000000000 + (m * 0x10000000000000 + n) % 0x10000000000000 = n := by
        omega
      have shift : ((m + 1 : Nat) : Int) - 1075 = (m : Int) - 1074 := by push_cast; ring
      rw [field, fraction, if_neg (by omega), if_neg (by omega), shift]

end Patterns

/-- This is the count of steps from zero. -/
def steps (x : Rat) : Int :=
  roundHalfEven (x * 2 ^ (-spacing x))

variable {x : Rat}

theorem spacingLeast (x : Rat) : -1074 ≤ spacing x := by
  simp only [spacing]
  split <;> omega

theorem orderLeSpacing (x : Rat) : order 2 x - 52 ≤ spacing x := by
  simp only [spacing]
  split <;> omega

theorem spacingCases (x : Rat) : spacing x = -1074 ∨ spacing x = order 2 x - 52 := by
  simp only [spacing]
  split <;> omega

/-- A power of two bounds the steps if it bounds the scaled number. -/
theorem scaledPower (s : Int) (exponent : Nat) :
    (2 : Rat) ^ (s + exponent) * 2 ^ (-s) = ((2 ^ exponent : Nat) : Int) := by
  rw [powerMul (by norm_num) (show s + (exponent : Int) + -s = exponent by ring), zpow_natCast]
  push_cast
  rfl

/-- Only the numbers of the least spacing have few steps. -/
theorem stepsBounds (positive : 0 < x) :
    0 ≤ steps x ∧ steps x ≤ (2 ^ 53 : Nat) ∧
      (spacing x = -1074 ∨ ((2 ^ 52 : Nat) : Int) ≤ steps x) := by
  obtain ⟨low, high⟩ := orderInDecade (show 1 < 2 by decide) positive
  push_cast at low high
  have scale : (0 : Rat) < 2 ^ (-spacing x) := by positivity
  refine ⟨?_, ?_, ?_⟩
  · apply leRound
    have := mul_pos positive scale
    exact_mod_cast this.le
  · apply roundLe
    rw [← scaledPower (spacing x)]
    apply mul_le_mul_of_nonneg_right _ scale.le
    apply high.le.trans
    apply zpow_le_zpow_right₀ (by norm_num)
    have := orderLeSpacing x
    omega
  · rcases spacingCases x with least | normal
    · exact .inl least
    · right
      apply leRound
      rw [← scaledPower (spacing x)]
      apply mul_le_mul_of_nonneg_right _ scale.le
      rwa [normal, Nat.cast_ofNat, sub_add_cancel]

/-- The pattern counts the steps from the least pattern with the spacing. -/
theorem nearestBitsSteps (positive : 0 < x) :
    nearestBits x =
      min ((spacing x + 1074).toNat * 0x10000000000000 + (steps x).toNat) infinityBits := by
  obtain ⟨first, _, _⟩ := stepsBounds positive
  have least := spacingLeast x
  have pattern : ((spacing x + 1074) * 0x10000000000000 + steps x).toNat =
      (spacing x + 1074).toNat * 0x10000000000000 + (steps x).toNat := by omega
  simp only [nearestBits]
  rw [← steps, pattern]
  split <;> omega

theorem nearestBitsRange (positive : 0 < x) : nearestBits x ≤ infinityBits := by
  rw [nearestBitsSteps positive]
  exact Nat.min_le_right _ _

theorem nearestPattern (positive : 0 < x) :
    nearest x = Float.ofBits (UInt64.ofNat (nearestBits x)) := by
  rw [nearest, if_pos positive]

/-- A finite nearest number is its count of steps. -/
theorem nearestMagnitude (positive : 0 < x) (finite : nearestBits x < infinityBits) :
    magnitude (nearest x) = steps x * 2 ^ spacing x := by
  obtain ⟨first, last, normal⟩ := stepsBounds positive
  have least := spacingLeast x
  have whole : ((steps x).toNat : Rat) = steps x := by
    exact_mod_cast congrArg (Int.cast (R := Rat)) (Int.toNat_of_nonneg first)
  have shift : (((spacing x + 1074).toNat : Nat) : Int) - 1074 = spacing x := by omega
  have pattern := nearestBitsSteps positive
  have reached : nearestBits x =
      (spacing x + 1074).toNat * 0x10000000000000 + (steps x).toNat := by omega
  rw [nearestPattern positive, reached, magnitudePattern (by omega) (by omega) (by omega), whole,
    shift]

theorem nearestFinite (positive : 0 < x) :
    (nearest x).isFinite ↔ nearestBits x < infinityBits := by
  rw [nearestPattern positive, finitePattern (nearestBitsRange positive)]

theorem nearestNegative (positive : 0 < x) : negative (nearest x) = false := by
  rw [nearestPattern positive, negativePattern (nearestBitsRange positive)]

/-- Beyond the range the nearest number is the infinity. -/
theorem nearestInfinite (positive : 0 < x) (beyond : ¬(nearest x).isFinite) :
    nearest x = infinity := by
  have range := nearestBitsRange positive
  rw [nearestFinite positive] at beyond
  rw [nearestPattern positive, show nearestBits x = infinityBits by omega]
  rfl

theorem nearestInf (beyond : ¬(nearest x).isFinite) : (nearest x).isInf := by
  by_cases positive : 0 < x
  · rw [nearestInfinite positive beyond]
    decide
  · rw [nearest, if_neg positive] at beyond
    exact absurd (by decide) beyond

/-- The nearest number is at most half a spacing away. -/
theorem nearestError (x : Rat) : |(steps x : Rat) * 2 ^ spacing x - x| ≤ 2 ^ spacing x / 2 := by
  have scale : (0 : Rat) < 2 ^ spacing x := by positivity
  have scaled : x * 2 ^ (-spacing x) * 2 ^ spacing x = x :=
    powerCancel (by norm_num) x (neg_add_cancel _)
  have near := (roundNearest (x * 2 ^ (-spacing x))).1
  calc |(steps x : Rat) * 2 ^ spacing x - x|
      = |x * 2 ^ (-spacing x) - steps x| * 2 ^ spacing x := by
        rw [← absScale scale, scaled, abs_sub_comm]
    _ ≤ 1 / 2 * 2 ^ spacing x := mul_le_mul_of_nonneg_right near scale.le
    _ = 2 ^ spacing x / 2 := by ring

/-- The tie between the largest finite number and the next power of two. -/
def limit : Rat :=
  (2 ^ 53 - 1 / 2) * 2 ^ (971 : Int)

/-- A number below a power of two has a lower order. -/
theorem orderLt {exponent : Int} (positive : 0 < x) (below : x < 2 ^ exponent) :
    order 2 x < exponent := by
  obtain ⟨low, _⟩ := orderInDecade (show 1 < 2 by decide) positive
  push_cast at low
  exact (zpow_lt_zpow_iff_right₀ (by norm_num)).mp (low.trans_lt below)

theorem leOrder {exponent : Int} (above : (2 : Rat) ^ exponent ≤ x) : exponent ≤ order 2 x := by
  have positive : 0 < x := lt_of_lt_of_le (by positivity) above
  obtain ⟨_, high⟩ := orderInDecade (show 1 < 2 by decide) positive
  push_cast at high
  have := (zpow_lt_zpow_iff_right₀ (by norm_num)).mp (above.trans_lt high)
  omega

theorem limitBounds : (2 : Rat) ^ (1023 : Int) ≤ limit ∧ limit < 2 ^ (1024 : Int) := by
  have scale : (0 : Rat) < 2 ^ (971 : Int) := by positivity
  have low : (2 : Rat) ^ (52 : Int) * 2 ^ (971 : Int) = 2 ^ (1023 : Int) :=
    powerMul (by norm_num) (by decide)
  have high : (2 : Rat) ^ (53 : Int) * 2 ^ (971 : Int) = 2 ^ (1024 : Int) :=
    powerMul (by norm_num) (by decide)
  rw [← low, ← high, limit]
  exact ⟨mul_le_mul_of_nonneg_right (by norm_num) scale.le,
    mul_lt_mul_of_pos_right (by norm_num) scale⟩

theorem powerLtLimit {n : Int} (small : n < 1023) : (2 : Rat) ^ n < limit :=
  (zpow_lt_zpow_right₀ (by norm_num) small).trans_le limitBounds.1

/-- Between these decimal neighbours lie the limit and the next power of two. -/
theorem limitDecimal : (1797693134 : Rat) * 10 ^ (299 : Int) < limit ∧
    (2 : Rat) ^ (1024 : Int) ≤ 1797693135 * 10 ^ (299 : Int) := by
  decide +kernel

theorem limitScaled : limit * 2 ^ (-(971 : Int)) = 2 ^ 53 - 1 / 2 := by
  rw [limit, powerCancel (by norm_num) _ (by decide)]

/-- The tie itself goes to the even side, which is beyond the range. -/
theorem nearestBitsLimit (positive : 0 < x) : nearestBits x < infinityBits ↔ x < limit := by
  obtain ⟨_, last, normal⟩ := stepsBounds positive
  have pattern := nearestBitsSteps positive
  have near : NearestEven (x * 2 ^ (-spacing x)) (steps x) := roundNearest _
  have cases := spacingCases x
  have wide := orderLeSpacing x
  have scale : (0 : Rat) < 2 ^ (-(971 : Int)) := by positivity
  rw [infinityBits] at pattern ⊢
  constructor
  · intro finite
    by_contra beyond
    rw [not_lt] at beyond
    have order := leOrder (limitBounds.1.trans beyond)
    have greatest : spacing x = 971 := by omega
    have tie : NearestEven (2 ^ 53 - 1 / 2) (2 ^ 53 : Nat) := by
      constructor
      · norm_num
      · intro _
        norm_num
    have scaled : (2 : Rat) ^ 53 - 1 / 2 ≤ x * 2 ^ (-spacing x) := by
      rw [greatest, ← limitScaled]
      exact mul_le_mul_of_nonneg_right beyond scale.le
    have := tie.mono near scaled
    omega
  · intro inside
    have order := orderLt positive (inside.trans limitBounds.2)
    by_cases greatest : spacing x = 971
    · have scaled : x * 2 ^ (-spacing x) < 2 ^ 53 - 1 / 2 := by
        rw [greatest, ← limitScaled]
        exact mul_lt_mul_of_pos_right inside scale
      have below : (steps x : Rat) < ((2 ^ 53 : Nat) : Int) := by
        have := near.upper
        push_cast
        linarith
      have : steps x < ((2 ^ 53 : Nat) : Int) := by exact_mod_cast below
      omega
    · omega

/-- A number below half the least step is nearest to zero. -/
theorem nearestTiny (tiny : x < 2 ^ (-1075 : Int)) : nearest x = Float.ofBits 0 := by
  by_cases positive : 0 < x
  · have order := orderLt positive tiny
    have least : spacing x = -1074 := by
      have := spacingCases x
      have := spacingLeast x
      omega
    have scaled : x * 2 ^ (-spacing x) < 1 / 2 := by
      calc x * 2 ^ (-spacing x) < 2 ^ (-1075 : Int) * 2 ^ (-spacing x) :=
            mul_lt_mul_of_pos_right tiny (by positivity)
        _ = 1 / 2 := by
            rw [least, powerMul (by norm_num) (show (-1075 : Int) + - -1074 = -1 by decide)]
            norm_num
    have above : 0 < x * 2 ^ (-spacing x) := mul_pos positive (by positivity)
    have zero : NearestEven (x * 2 ^ (-spacing x)) 0 := by
      rw [NearestEven, Int.cast_zero, sub_zero, abs_of_pos above]
      exact ⟨scaled.le, fun _ => rfl⟩
    rw [nearestPattern positive, nearestBitsSteps positive, steps, roundEq zero, least]
    rfl
  · rw [nearest, if_neg positive]

end Calculator.Binary64
