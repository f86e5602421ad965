/-
This file proves that the nearest number is the closest one, with an even significand in a tie.
-/

import Calculator.Proofs.Binary64.Nearest

namespace Calculator.Binary64

open Rational

/-- Below the limit no finite number is closer to the exact value, and only a number with an even
significand is as close as another one. From the limit on the number is infinite. -/
structure Closest (q : Rat) (x : Float) : Prop where
  plus : negative x = false
  finite : q < limit → x.isFinite
  infinite : limit ≤ q → x = infinity
  closest : q < limit → ∀ y : Float, y.isFinite → |q - value x| ≤ |q - value y|
  even : q < limit → ∀ y : Float, y.isFinite → |q - value x| = |q - value y| →
    value y = value x ∨ significand x % 2 = 0

section

variable {x y : Float}

theorem valuePlus (plus : negative x = false) : value x = magnitude x := by
  rw [value, plus, if_neg Bool.false_ne_true]

theorem significandRange (x : Float) : significand x < 0x20000000000000 := by
  have small := fractionRange x
  unfold significand
  split <;> omega

/-- The last bit of the pattern is the last bit of the significand. -/
theorem significandParity (x : Float) : significand x % 2 = x.toBits.toNat % 2 := by
  unfold significand fraction
  split <;> omega

/-- A multiple of a spacing has an integral count of its steps, and an even significand an even
count. -/
theorem valueSteps {s : Int} (above : s ≤ exponent x) :
    ∃ m : Int, value x = m * 2 ^ s ∧ (significand x % 2 = 0 → m % 2 = 0) := by
  obtain ⟨shift, exponents⟩ : ∃ shift : Nat, exponent x = shift + s :=
    ⟨(exponent x - s).toNat, by omega⟩
  have magnitudes : magnitude x = ((significand x * 2 ^ shift : Nat) : Int) * 2 ^ s := by
    rw [magnitude, exponents, zpow_add₀ (by norm_num), zpow_natCast]
    push_cast
    ring
  have even : significand x % 2 = 0 → ((significand x * 2 ^ shift : Nat) : Int) % 2 = 0 := by
    intro significands
    have product : significand x * 2 ^ shift % 2 = 0 := by rw [Nat.mul_mod, significands]; simp
    omega
  unfold value
  split
  · exact ⟨_, by rw [magnitudes, Int.cast_neg, neg_mul], fun significands => by
      have := even significands
      omega⟩
  · exact ⟨_, magnitudes, even⟩

/-- A number with a finer spacing lies below the least number with this spacing. -/
theorem valueFine {s : Int} (below : exponent x < s) : value x < 2 ^ (s + 52) := by
  have small : (significand x : Rat) < 2 ^ (53 : Int) := by exact_mod_cast significandRange x
  have power : (0 : Rat) < 2 ^ exponent x := by positivity
  calc value x ≤ magnitude x := by
        rw [← absValue]
        exact le_abs_self _
    _ < 2 ^ (53 : Int) * 2 ^ exponent x := mul_lt_mul_of_pos_right small power
    _ ≤ 2 ^ (53 : Int) * 2 ^ (s - 1) := by
        apply mul_le_mul_of_nonneg_left _ (by positivity)
        exact zpow_le_zpow_right₀ (by norm_num) (by omega)
    _ = 2 ^ (s + 52) := powerMul (by norm_num) (by ring)

theorem exponentLeast (x : Float) : -1074 ≤ exponent x := by
  unfold exponent
  split <;> omega

/-- The spacing around a number is that of the number. -/
theorem spacingMagnitude (positive : 0 < magnitude x) : spacing (magnitude x) = exponent x := by
  have small := fractionRange x
  have power : (0 : Rat) < 2 ^ exponent x := by positivity
  have cases := spacingCases (magnitude x)
  have wide := orderLeSpacing (magnitude x)
  have coarse := spacingLeast (magnitude x)
  by_cases subnormal : field x = 0
  · have least : exponent x = -1074 := by rw [exponent, if_pos subnormal]; norm_num
    have size : (significand x : Rat) < 2 ^ (52 : Int) := by
      rw [significand, if_pos subnormal]
      exact_mod_cast small
    have below : magnitude x < 2 ^ (-1022 : Int) := by
      calc magnitude x < 2 ^ (52 : Int) * 2 ^ exponent x := mul_lt_mul_of_pos_right size power
        _ = 2 ^ (-1022 : Int) := powerMul (by norm_num) (by rw [least]; norm_num)
    have order := orderLt positive below
    omega
  · have size : significand x = 0x10000000000000 + fraction x := by
      rw [significand, if_neg subnormal]
    have low : (2 : Rat) ^ (52 : Int) ≤ significand x := by
      rw [size]
      exact_mod_cast Nat.le_add_right _ _
    have high : (significand x : Rat) < 2 ^ (53 : Int) := by exact_mod_cast significandRange x
    have decade : InDecade 2 (magnitude x) (exponent x + 52) := by
      constructor
      · calc ((2 : Nat) : Rat) ^ (exponent x + 52) = 2 ^ (52 : Int) * 2 ^ exponent x :=
              (powerMul (by norm_num) (by ring)).symm
          _ ≤ magnitude x := mul_le_mul_of_nonneg_right low power.le
      · calc magnitude x < 2 ^ (53 : Int) * 2 ^ exponent x := mul_lt_mul_of_pos_right high power
          _ = ((2 : Nat) : Rat) ^ (exponent x + 52 + 1) := powerMul (by norm_num) (by ring)
    have order : order 2 (magnitude x) = exponent x + 52 := orderFromEq (by decide) decade _
    have least := exponentLeast x
    omega

/-- Every finite number without a minus sign is the nearest one to its value. -/
theorem nearestSelf (plus : negative x = false) (finite : x.isFinite) :
    nearest (magnitude x) = x := by
  have field := fieldRange x
  have notInfinite := finiteIff.mp finite
  have small := fractionRange x
  have bits := bitsParts x
  rw [plus, if_neg Bool.false_ne_true, Nat.zero_add] at bits
  have same : (nearest (magnitude x)).toBits.toNat = x.toBits.toNat := by
    by_cases positive : 0 < magnitude x
    · have counted : steps (magnitude x) = significand x := by
        rw [steps, spacingMagnitude positive, magnitude, powerCancel (by norm_num) _ (by ring)]
        exact_mod_cast roundInt (significand x)
      have pattern : nearestBits (magnitude x) = x.toBits.toNat := by
        rw [nearestBitsSteps positive, spacingMagnitude positive, counted, bits, infinityBits]
        unfold exponent significand
        split <;> omega
      have range := nearestBitsRange positive
      rw [nearestPattern positive, toBitsPattern range, pattern]
    · have zero : significand x = 0 := by
        by_contra nonzero
        exact positive (magnitudePos.mpr nonzero)
      unfold significand at zero
      rw [nearest, if_neg positive, bits]
      split at zero <;> simp_all
      rfl
  exact Float.toBits_inj.mp (UInt64.toNat_inj.mp same)

theorem eqOfValue (plus : negative x = false) (plusOther : negative y = false) (finite : x.isFinite)
    (finiteOther : y.isFinite) (same : value x = value y) : x = y := by
  rw [valuePlus plus, valuePlus plusOther] at same
  rw [← nearestSelf plus finite, same, nearestSelf plusOther finiteOther]

end

section

variable {q : Rat} {x y : Float}

/-- The count of steps is the significand of the nearest number up to a carry. -/
theorem stepsEven (positive : 0 < q) (even : steps q % 2 = 0) (inside : q < limit) :
    significand (nearest q) % 2 = 0 := by
  have range := (nearestBitsLimit positive).mpr inside
  have pattern := nearestBitsSteps positive
  obtain ⟨first, _, _⟩ := stepsBounds positive
  rw [significandParity, nearestPattern positive, toBitsPattern range.le]
  omega

theorem nearestValue (positive : 0 < q) (inside : q < limit) :
    value (nearest q) = steps q * 2 ^ spacing q := by
  rw [valuePlus (nearestNegative positive),
    nearestMagnitude positive ((nearestBitsLimit positive).mpr inside)]

/-- The distances from a number are those of the scaled numbers. -/
theorem scaledDistance (q : Rat) (s m : Int) :
    |q - m * 2 ^ s| = |q * 2 ^ (-s) - m| * 2 ^ s := by
  have scale : (0 : Rat) < 2 ^ s := by positivity
  rw [← absScale scale, powerCancel (by norm_num) q (neg_add_cancel s)]

/-- No finite number is closer than the nearest one. A number with a finer spacing is not even as
close, and the others are multiples of the spacing. -/
theorem nearestClosest (positive : 0 < q) (inside : q < limit) (y : Float) :
    |q - value (nearest q)| ≤ |q - value y| ∧
      (|q - value (nearest q)| = |q - value y| →
        spacing q ≤ exponent y ∧ (value y = value (nearest q) ∨ steps q % 2 = 0)) := by
  have near : NearestEven (q * 2 ^ (-spacing q)) (steps q) := roundNearest _
  have scale : (0 : Rat) < 2 ^ spacing q := by positivity
  rw [nearestValue positive inside, scaledDistance]
  by_cases coarse : spacing q ≤ exponent y
  · obtain ⟨m, multiple, _⟩ := valueSteps coarse
    obtain ⟨least, tie⟩ := near.closest m
    rw [multiple, scaledDistance]
    refine ⟨mul_le_mul_of_nonneg_right least scale.le, fun same => ⟨coarse, ?_⟩⟩
    rcases tie (mul_right_cancel₀ scale.ne' same) with equal | even
    · exact .inl (by rw [equal])
    · exact .inr even
  · have fine := valueFine (not_le.mp coarse)
    have normal : spacing q = order 2 q - 52 := by
      have := spacingCases q
      have := exponentLeast y
      omega
    have low : (2 : Rat) ^ (spacing q + 52) ≤ q := by
      have decade := (orderInDecade (show 1 < 2 by decide) positive).1
      rwa [show order 2 q = spacing q + 52 by omega] at decade
    have least := (near.closest (2 ^ 52)).1
    have bound : |q * 2 ^ (-spacing q) - steps q| * 2 ^ spacing q ≤ q - 2 ^ (spacing q + 52) := by
      calc |q * 2 ^ (-spacing q) - steps q| * 2 ^ spacing q
          ≤ |q * 2 ^ (-spacing q) - (2 ^ 52 : Int)| * 2 ^ spacing q :=
            mul_le_mul_of_nonneg_right least scale.le
        _ = |q - ((2 ^ 52 : Int) : Rat) * 2 ^ spacing q| := (scaledDistance q _ _).symm
        _ = |q - 2 ^ (spacing q + 52)| := by
            rw [add_comm, zpow_add₀ (by norm_num)]
            norm_num
        _ = q - 2 ^ (spacing q + 52) := abs_of_nonneg (by linarith)
    have far : q - 2 ^ (spacing q + 52) < |q - value y| := by
      rw [abs_of_pos (by linarith)]
      linarith
    refine ⟨by linarith, fun same => absurd same (by linarith)⟩

theorem valueNothing : value (Float.ofBits 0) = 0 := by
  rw [valueZero]
  decide

/-- The closest number is a multiple of the spacing, and its count of steps is the nearest
integer. -/
theorem Closest.nearestEven (closest : Closest q x) (positive : 0 < q) (inside : q < limit) :
    ∃ m : Int, value x = m * 2 ^ spacing q ∧ NearestEven (q * 2 ^ (-spacing q)) m := by
  have near : NearestEven (q * 2 ^ (-spacing q)) (steps q) := roundNearest _
  have scale : (0 : Rat) < 2 ^ spacing q := by positivity
  have finite := (nearestFinite positive).mpr ((nearestBitsLimit positive).mpr inside)
  obtain ⟨least, tie⟩ := nearestClosest positive inside x
  have same := le_antisymm least (closest.closest inside _ finite)
  obtain ⟨m, multiple, even⟩ := valueSteps (tie same).1
  have distance : |q * 2 ^ (-spacing q) - steps q| = |q * 2 ^ (-spacing q) - m| := by
    rw [nearestValue positive inside, multiple, scaledDistance, scaledDistance] at same
    exact mul_right_cancel₀ scale.ne' same
  refine ⟨m, multiple, distance ▸ near.1, fun half => ?_⟩
  rcases closest.even inside _ finite same.symm with equal | significands
  · rw [nearestValue positive inside, multiple] at equal
    have counts : (steps q : Rat) = m := mul_right_cancel₀ scale.ne' equal
    rw [← Int.cast_inj (α := Rat) |>.mp counts]
    exact near.2 (distance.trans half)
  · exact even significands

theorem limitPositive : 0 < limit :=
  lt_of_lt_of_le (by positivity) limitBounds.1

theorem nearestZero : nearest 0 = Float.ofBits 0 := by
  rw [nearest, if_neg (lt_irrefl 0)]

theorem zeroOfLeast (least : |0 - value x| ≤ |0 - value (Float.ofBits 0)|) : value x = 0 := by
  rw [valueNothing, sub_zero, abs_zero, zero_sub, abs_neg] at least
  exact abs_nonpos_iff.mp least

/-- Every other number is farther from zero than zero. -/
theorem closestZero : Closest 0 x ↔ x = Float.ofBits 0 := by
  constructor
  · intro closest
    have zero := zeroOfLeast (closest.closest limitPositive (Float.ofBits 0) (by decide))
    exact eqOfValue closest.plus (by decide) (closest.finite limitPositive) (by decide)
      (zero.trans valueNothing.symm)
  · rintro rfl
    have nothing : |0 - value (Float.ofBits 0)| = 0 := by rw [valueNothing, sub_zero, abs_zero]
    refine ⟨by decide, fun _ => by decide, fun beyond => ?_, fun _ y _ => ?_, fun _ y _ same => ?_⟩
    · exact absurd beyond (not_le.mpr limitPositive)
    · rw [nothing]
      exact abs_nonneg _
    · rw [nothing, zero_sub, abs_neg] at same
      rw [valueNothing]
      exact .inl (abs_eq_zero.mp same.symm)

theorem closestNearest (positive : 0 < q) : Closest q (nearest q) where
  plus := nearestNegative positive
  finite inside := (nearestFinite positive).mpr ((nearestBitsLimit positive).mpr inside)
  infinite beyond := by
    apply nearestInfinite positive
    rw [nearestFinite positive, nearestBitsLimit positive]
    exact not_lt.mpr beyond
  closest inside y _ := (nearestClosest positive inside y).1
  even inside y _ same := by
    rcases ((nearestClosest positive inside y).2 same).2 with equal | even
    · exact .inl equal
    · exact .inr (stepsEven positive even inside)

theorem Closest.eqNearest (closest : Closest q x) (positive : 0 < q) : x = nearest q := by
  by_cases inside : q < limit
  · obtain ⟨m, multiple, near⟩ := closest.nearestEven positive inside
    have counts : m = steps q := near.unique (roundNearest _)
    apply eqOfValue closest.plus (nearestNegative positive) (closest.finite inside)
    · exact (nearestFinite positive).mpr ((nearestBitsLimit positive).mpr inside)
    · rw [multiple, nearestValue positive inside, counts]
  · have beyond := not_lt.mp inside
    rw [closest.infinite beyond, (closestNearest positive).infinite beyond]

/-- The nearest number is the closest one, and there is no other. -/
theorem closestIff (nonnegative : 0 ≤ q) : Closest q x ↔ x = nearest q := by
  rcases nonnegative.eq_or_lt with rfl | positive
  · rw [closestZero, nearestZero]
  · exact ⟨fun closest => closest.eqNearest positive, fun same => same ▸ closestNearest positive⟩

theorem Closest.notNaN (closest : Closest q x) : x.isNaN = false := by
  by_cases inside : q < limit
  · exact nanOfFinite (closest.finite inside)
  · rw [closest.infinite (not_lt.mp inside)]
    decide

end

/-- Within the range no finite number is closer to an exact value of either sign, and a tie goes to
the even significand. -/
structure ClosestFinite (q : Rat) (x : Float) : Prop where
  inside : |q| < limit
  finite : x.isFinite
  closest : ∀ y : Float, y.isFinite → |q - value x| ≤ |q - value y|
  even : ∀ y : Float, y.isFinite → |q - value x| = |q - value y| →
    value y = value x ∨ significand x % 2 = 0

section

variable {q : Rat} {x : Float}

theorem Closest.within (closest : Closest q x) (nonnegative : 0 ≤ q) (inside : q < limit) :
    ClosestFinite q x where
  inside := by rwa [abs_of_nonneg nonnegative]
  finite := closest.finite inside
  closest := closest.closest inside
  even := closest.even inside

/-- Opposite numbers have opposite closest numbers. -/
theorem ClosestFinite.opposite (closest : ClosestFinite q x) : ClosestFinite (-q) (-x) := by
  have reflected (y : Float) (finite : y.isFinite) : |(-q) - value y| = |q - value (-y)| := by
    rw [valueOpposite finite, ← abs_neg, neg_sub', neg_neg]
  have own : |(-q) - value (-x)| = |q - value x| := by
    rw [valueOpposite closest.finite, ← neg_sub', abs_neg]
  refine ⟨by rw [abs_neg]; exact closest.inside, finiteNeg closest.finite, fun y finite => ?_,
    fun y finite same => ?_⟩
  · rw [own, reflected y finite]
    exact closest.closest (-y) (finiteNeg finite)
  · rw [own, reflected y finite] at same
    rw [significandNeg closest.finite, valueOpposite closest.finite]
    rcases closest.even (-y) (finiteNeg finite) same with equal | even
    · rw [valueOpposite finite, neg_eq_iff_eq_neg] at equal
      exact .inl equal
    · exact .inr even

/-- A number above half the least step is closer to the step than to zero. -/
theorem ClosestFinite.positive (closest : ClosestFinite q x) (above : 2 ^ (-1075 : Int) < q) :
    0 < value x := by
  by_contra below
  rw [not_lt] at below
  have least := closest.closest (Float.ofBits 1) (by decide)
  have step : value (Float.ofBits 1) = 2 * 2 ^ (-1075 : Int) := by
    have single : significand (Float.ofBits 1) = 1 := by decide
    have least : exponent (Float.ofBits 1) = -1075 + 1 := by decide
    rw [valuePlus (by decide), magnitude, single, least, zpow_add_one₀ (by norm_num)]
    ring
  have near : |q - value (Float.ofBits 1)| < q := by
    rw [step]
    exact abs_lt.mpr ⟨by linarith, by linarith [zpow_pos (two_pos (α := Rat)) (-1075)]⟩
  have far : q ≤ |q - value x| := (by linarith : q ≤ q - value x).trans (le_abs_self _)
  linarith

/-- The closest number has the same sign unless it is zero for a tiny number. -/
theorem ClosestFinite.sign (closest : ClosestFinite q x)
    (apart : q = 0 ∨ 2 ^ (-1075 : Int) < |q|) : SignType.sign (value x) = SignType.sign q := by
  rcases lt_trichotomy q 0 with below | rfl | above
  · rw [abs_of_neg below] at apart
    have opposite := closest.opposite.positive (apart.resolve_left below.ne)
    rw [valueOpposite closest.finite, neg_pos] at opposite
    rw [sign_neg below, sign_neg opposite]
  · rw [zeroOfLeast (closest.closest (Float.ofBits 0) (by decide))]
  · rw [abs_of_pos above] at apart
    rw [sign_pos above, sign_pos (closest.positive (apart.resolve_left above.ne'))]

end

end Calculator.Binary64
