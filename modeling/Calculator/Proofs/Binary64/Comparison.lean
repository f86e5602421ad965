/-
This file proves that finite numbers are compared by their values.
-/

import Calculator.Proofs.Binary64.Exact

namespace Calculator.Binary64

open Rational Float.Model Float.Model.UnpackedFloat

/-- A larger number has no finer spacing. -/
theorem spacingMono {p q : Rat} (positive : 0 < p) (le : p ≤ q) : spacing p ≤ spacing q := by
  have low := orderInDecade (show 1 < 2 by decide) positive
  have high := orderInDecade (show 1 < 2 by decide) (positive.trans_le le)
  have orders := low.mono (by decide) high le
  simp only [spacing]
  split <;> split <;> omega

variable {x y : Float}

/-- The exponents decide before the significands. -/
theorem magnitudeLtOfExponent (positive : 0 < magnitude y) (lower : exponent x < exponent y) :
    magnitude x < magnitude y := by
  by_contra above
  rw [not_lt] at above
  have spacings := spacingMono positive above
  rw [spacingMagnitude positive, spacingMagnitude (positive.trans_le above)] at spacings
  omega

theorem compareMagnitudes (positive : 0 < magnitude x) (positiveOther : 0 < magnitude y) :
    (compare (exponent x) (exponent y)).then (compare (significand x) (significand y)) =
      compare (magnitude x) (magnitude y) := by
  rcases lt_trichotomy (exponent x) (exponent y) with lower | same | higher
  · rw [compare_lt_iff_lt.mpr lower,
      compare_lt_iff_lt.mpr (magnitudeLtOfExponent positiveOther lower)]
    rfl
  · have power : (0 : Rat) < 2 ^ exponent y := by positivity
    have naturals := (Nat.strictMono_cast (α := Rat)).cmp_map_eq (significand x) (significand y)
    rw [compare_eq_iff_eq.mpr same, magnitude, magnitude, same, ← cmp_eq_compare,
      ← cmp_eq_compare, cmp_mul_pos_right power, naturals]
    rfl
  · rw [compare_gt_iff_gt.mpr higher,
      compare_gt_iff_gt.mpr (magnitudeLtOfExponent positive higher)]
    rfl

/-- The sign of a finite number that is not zero is the sign of its value. -/
theorem partsCases (finite : x.isFinite) :
    (∃ s, parts x = .zero s ∧ value x = 0) ∨
    (∃ positive, parts x = .finite .positive (significand x) (exponent x) positive ∧
      value x = magnitude x ∧ 0 < magnitude x) ∨
    ∃ positive, parts x = .finite .negative (significand x) (exponent x) positive ∧
      value x = -magnitude x ∧ 0 < magnitude x := by
  rcases Nat.eq_zero_or_pos (significand x) with zero | positive
  · exact .inl ⟨_, partsZero zero, valueZero.mpr zero⟩
  · have above := magnitudePos.mpr positive.ne'
    rw [partsFinite finite positive, value, sign]
    cases negative x with
    | false => exact .inr (.inl ⟨positive, rfl, rfl, above⟩)
    | true => exact .inr (.inr ⟨positive, rfl, rfl, above⟩)

theorem compareParts (finite : x.isFinite) (finiteOther : y.isFinite) :
    (parts x).compare (parts y) = some (compare (value x) (value y)) := by
  rcases partsCases finite with
    ⟨s, partsX, valueX⟩ | ⟨_, partsX, valueX, above⟩ | ⟨_, partsX, valueX, above⟩ <;>
  rcases partsCases finiteOther with
    ⟨t, partsY, valueY⟩ | ⟨_, partsY, valueY, aboveOther⟩ | ⟨_, partsY, valueY, aboveOther⟩ <;>
  rw [partsX, partsY, valueX, valueY]
  · rfl
  · exact congrArg some (compare_lt_iff_lt.mpr aboveOther).symm
  · exact congrArg some (compare_gt_iff_gt.mpr (neg_neg_of_pos aboveOther)).symm
  · exact congrArg some (compare_gt_iff_gt.mpr above).symm
  · exact congrArg some (compareMagnitudes above aboveOther)
  · exact congrArg some (compare_gt_iff_gt.mpr ((neg_neg_of_pos aboveOther).trans above)).symm
  · exact congrArg some (compare_lt_iff_lt.mpr (neg_neg_of_pos above)).symm
  · exact congrArg some (compare_lt_iff_lt.mpr ((neg_neg_of_pos above).trans aboveOther)).symm
  · -- Among the negative numbers the larger magnitude is the smaller number.
    have opposite := StrictAnti.cmp_map_eq (fun _ _ => neg_lt_neg) (magnitude x) (magnitude y)
    rw [cmp_eq_compare, ← cmp_swap, cmp_eq_compare, ← compareMagnitudes above aboveOther] at opposite
    exact congrArg some opposite.symm

theorem leIff (finite : x.isFinite) (finiteOther : y.isFinite) : x ≤ y ↔ value x ≤ value y := by
  have compared : x ≤ y ↔ (parts x).le (parts y) := decide_eq_true_iff
  rw [compared, UnpackedFloat.le, compareParts finite finiteOther, Option.any_some,
    Ordering.isLE_iff_ne_gt, ← ne_eq, compare_le_iff_le]

theorem ltIff (finite : x.isFinite) (finiteOther : y.isFinite) : x < y ↔ value x < value y := by
  have compared : x < y ↔ (parts x).lt (parts y) := decide_eq_true_iff
  rw [compared, UnpackedFloat.lt, compareParts finite finiteOther, beq_iff_eq, Option.some.injEq,
    compare_lt_iff_lt]

theorem equalIff (finite : x.isFinite) (finiteOther : y.isFinite) :
    x == y ↔ value x = value y := by
  have compared : (x == y) = (parts x).beq (parts y) := rfl
  rw [compared, UnpackedFloat.beq, compareParts finite finiteOther, beq_iff_eq, Option.some.injEq,
    compare_eq_iff_eq]

end Calculator.Binary64
