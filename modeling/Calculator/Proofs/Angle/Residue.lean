/-
This file proves which angles have a residue that is an odd count of quarter turns.
-/

import Calculator.Angle
import Calculator.Proofs.Binary64.Integer
import Calculator.Proofs.Rational.Quotient

namespace Calculator

open Binary64 Rational

/-- The residue before its rounding lies in the first turn. -/
def exactResidue (turn : Nat) (angle : Rat) : Rat :=
  angle - turn * (angle / turn).floor

/-- The angle is an odd count of quarter turns. -/
def OddQuarters (turn : Nat) (angle : Rat) : Prop :=
  ∃ n : Int, angle = (2 * n + 1) * (turn / 4)

section Exact

variable {turn : Nat} {angle : Rat}

theorem residueNearest (turn : Nat) (x : Float) :
    residue turn x = nearest (exactResidue turn (value x)) := rfl

theorem exactResidueRange (positive : 0 < turn) (angle : Rat) :
    0 ≤ exactResidue turn angle ∧ exactResidue turn angle < turn :=
  leftRange (Nat.cast_pos.mpr positive)

/-- The whole turns of an angle are those that leave a residue in the first turn. -/
theorem exactResidueUnique (k : Int) (low : turn * k ≤ angle) (high : angle < turn * (k + 1)) :
    exactResidue turn angle = angle - turn * k := by
  have above : (0 : Rat) < turn := by linarith
  have turns : (angle / turn).floor = k := by
    have lowest : (k : Rat) ≤ angle / turn := (le_div_iff₀ above).mpr (by linarith)
    have highest : angle / turn < ((k + 1 : Int) : Rat) := by
      rw [div_lt_iff₀ above]
      push_cast
      linarith
    have notBelow := Rat.le_floor_iff.mpr lowest
    have notAbove := Rat.floor_lt_iff.mpr highest
    omega
  rw [exactResidue, turns]

/-- Whole turns are an even count of half turns. -/
theorem oddQuartersTurns (k : Int) :
    OddQuarters turn (angle - turn * k) ↔ OddQuarters turn angle := by
  constructor
  · rintro ⟨n, quarters⟩
    refine ⟨n + 2 * k, ?_⟩
    push_cast
    linarith
  · rintro ⟨n, rfl⟩
    refine ⟨n - 2 * k, ?_⟩
    push_cast
    ring

theorem oddQuartersResidue : OddQuarters turn (exactResidue turn angle) ↔ OddQuarters turn angle :=
  oddQuartersTurns _

end Exact

section Rounding

variable {x : Float} {q : Rat}

/-- A finite number from a power of two on is a multiple of the spacing there. -/
theorem valueMultiple (exponent : Int) (large : (2 : Rat) ^ exponent ≤ |value x|) :
    ∃ m : Int, value x = m * 2 ^ (exponent - 52) := by
  rw [absValue] at large
  have positive : 0 < magnitude x := lt_of_lt_of_le (by positivity) large
  have order := leOrder large
  have wide := orderLeSpacing (magnitude x)
  rw [spacingMagnitude positive] at wide
  obtain ⟨m, multiple, _⟩ := valueSteps (x := x) (s := exponent - 52) (by omega)
  exact ⟨m, multiple⟩

/-- A multiple below the first one is zero. -/
theorem multipleZero {m : Int} {scale : Rat} (positive : 0 < scale) (small : |m * scale| < scale) :
    m * scale = 0 := by
  rw [abs_mul, abs_of_pos positive, mul_lt_iff_lt_one_left positive] at small
  have none : |m| < 1 := by exact_mod_cast small
  rw [Int.abs_lt_one_iff.mp none, Int.cast_zero, zero_mul]

/-- A number below 512 is rounded by at most half the spacing there. -/
theorem nearestRadius (nonnegative : 0 ≤ q) (small : q < 2 ^ (9 : Int)) :
    (nearest q).isFinite ∧ negative (nearest q) = false ∧
      |value (nearest q) - q| ≤ 2 ^ (-45 : Int) := by
  rcases nonnegative.eq_or_lt with rfl | positive
  · rw [nearestZero, valueNothing]
    exact ⟨by decide, by decide, by norm_num⟩
  · have inside : q < limit := small.trans (powerLtLimit (by decide))
    have order := orderLt positive small
    have fine : spacing q ≤ -44 := by
      have := spacingCases q
      omega
    refine ⟨(nearestFinite positive).mpr ((nearestBitsLimit positive).mpr inside),
      nearestNegative positive, ?_⟩
    rw [nearestValue positive inside]
    calc |(steps q : Rat) * 2 ^ spacing q - q| ≤ 2 ^ spacing q / 2 := nearestError q
      _ ≤ 2 ^ (-44 : Int) / 2 :=
          div_le_div_of_nonneg_right (zpow_le_zpow_right₀ (by norm_num) fine) (by norm_num)
      _ = 2 ^ (-45 : Int) := by norm_num

/-- A number at most half a spacing beside an integer above 256 is rounded to the integer. -/
theorem nearestBeside {n : Int} (low : (2 : Rat) ^ (8 : Int) ≤ q) (high : q < 2 ^ (9 : Int))
    (near : |q - n| ≤ 2 ^ (-45 : Int)) : value (nearest q) = n := by
  have positive : 0 < q := lt_of_lt_of_le (by positivity) low
  have inside : q < limit := high.trans (powerLtLimit (by decide))
  have spaced : spacing q = -44 := by
    have := leOrder low
    have := orderLt positive high
    have := spacingCases q
    have := orderLeSpacing q
    omega
  have scaled : (n : Rat) * 2 ^ (44 : Int) = (n * 2 ^ 44 : Int) := by
    push_cast
    norm_num
  have tie : NearestEven (q * 2 ^ (44 : Int)) (n * 2 ^ 44) := by
    refine ⟨?_, fun _ => by omega⟩
    rw [← scaled, absScale (by positivity)]
    calc |q - n| * 2 ^ (44 : Int) ≤ 2 ^ (-45 : Int) * 2 ^ (44 : Int) :=
          mul_le_mul_of_nonneg_right near (by positivity)
      _ = 1 / 2 := by norm_num
  rw [nearestValue positive inside, steps, spaced, neg_neg, roundEq tie, ← scaled,
    powerCancel (by norm_num) _ (by decide)]

end Rounding

section Quarters

variable {turn quarter : Nat} {x : Float} {q : Rat}

/-- The magnitude of a number is exact. -/
theorem nearestMagnitudeValue (finite : x.isFinite) :
    value (nearest (magnitude x)) = magnitude x := by
  cases plus : negative x with
  | false => rw [nearestSelf plus finite, valuePlus plus]
  | true =>
      have other : negative (-x) = false := by rw [negativeNeg finite, plus]; rfl
      rw [← magnitudeNeg finite, nearestSelf other (finiteNeg finite), valuePlus other]

theorem turnCast (whole : turn = 4 * quarter) : (turn : Rat) = 4 * quarter := by
  rw [whole]
  push_cast
  rfl

theorem quarterCast (whole : turn = 4 * quarter) : (turn : Rat) / 4 = quarter := by
  rw [turnCast whole]
  ring

/-- In the first turn one quarter and three quarters are odd. -/
theorem oddQuartersFirst (whole : turn = 4 * quarter) (positive : 0 < quarter)
    (low : -quarter < q) (high : q < 5 * quarter) :
    OddQuarters turn q ↔ q = quarter ∨ q = 3 * quarter := by
  have above : (0 : Rat) < quarter := by exact_mod_cast positive
  rw [OddQuarters, quarterCast whole]
  constructor
  · rintro ⟨n, rfl⟩
    have least : (-1 : Rat) < 2 * n + 1 := by nlinarith
    have greatest : (2 * n + 1 : Rat) < 5 := by nlinarith
    have first : -1 < 2 * n + 1 := by exact_mod_cast least
    have last : 2 * n + 1 < 5 := by exact_mod_cast greatest
    obtain rfl | rfl : n = 0 ∨ n = 1 := by omega
    · left; norm_num
    · right; norm_num
  · rintro (rfl | rfl)
    · exact ⟨0, by norm_num⟩
    · exact ⟨1, by norm_num⟩

/-- An odd count of quarter turns has an exact residue. -/
theorem residueOfOddQuarters (whole : turn = 4 * quarter) (positive : 0 < quarter)
    (small : quarter ≤ 100) (odd : OddQuarters turn (value x)) :
    OddQuarters turn (value (residue turn x)) := by
  have above : (0 : Rat) < quarter := by exact_mod_cast positive
  obtain ⟨low, high⟩ := exactResidueRange (show 0 < turn by omega) (value x)
  have inTurn : exactResidue turn (value x) < 5 * quarter := by
    rw [turnCast whole] at high
    linarith
  have first := oddQuartersResidue.mpr odd
  rw [oddQuartersFirst whole positive (by linarith) inTurn] at first
  obtain ⟨n, bounded, exact⟩ : ∃ n : Nat, n ≤ 2 ^ 53 ∧ exactResidue turn (value x) = n := by
    rcases first with one | three
    · exact ⟨quarter, by omega, one⟩
    · exact ⟨3 * quarter, by omega, by rw [three]; push_cast; rfl⟩
  rw [residueNearest, exact, (nearestInteger bounded).value, Int.cast_natCast, ← exact]
  exact oddQuartersResidue.mpr odd

/-- The residue of an angle beside the first quarter turn below zero is rounded to three quarter
turns. -/
theorem residueBeside (whole : turn = 4 * quarter) (least : 90 ≤ quarter) (greatest : quarter ≤ 100)
    (near : |value x + quarter| ≤ 2 ^ (-45 : Int)) :
    OddQuarters turn (value (residue turn x)) := by
  have low : (90 : Rat) ≤ quarter := by exact_mod_cast least
  have high : (quarter : Rat) ≤ 100 := by exact_mod_cast greatest
  have cast := turnCast whole
  have tiny : (2 : Rat) ^ (-45 : Int) < 1 := by norm_num
  obtain ⟨below, above⟩ := abs_le.mp near
  have exact : exactResidue turn (value x) = value x + turn := by
    rw [exactResidueUnique (-1)] <;> push_cast <;> linarith
  have rounded : value (residue turn x) = (3 * quarter : Int) := by
    rw [residueNearest, exact]
    apply nearestBeside
    · norm_num
      linarith
    · norm_num
      linarith
    · have same : value x + turn - ((3 * quarter : Int) : Rat) = value x + quarter := by
        push_cast
        linarith
      rwa [same]
  refine ⟨1, ?_⟩
  rw [rounded]
  push_cast
  linarith

/-- From 256 on, only an odd count of quarter turns has an odd count of quarter turns as residue,
because the rounding error is smaller than the spacing of the angles. -/
theorem oddQuartersFar (whole : turn = 4 * quarter) (large : 256 ≤ |value x|)
    (near : |value (residue turn x) - exactResidue turn (value x)| ≤ 2 ^ (-45 : Int))
    (odd : OddQuarters turn (value (residue turn x))) : OddQuarters turn (value x) := by
  obtain ⟨m, multiple⟩ : ∃ m : Int, value x = m * 2 ^ (-44 : Int) :=
    valueMultiple 8 (by norm_num; exact large)
  obtain ⟨n, quarters⟩ := odd
  have cast := turnCast whole
  obtain ⟨count, distance⟩ : ∃ count : Int,
      value (residue turn x) - exactResidue turn (value x) = count * 2 ^ (-44 : Int) := by
    rw [exactResidue, quarters, cast]
    generalize (value x / (4 * quarter)).floor = k
    refine ⟨((2 * n + 1) * quarter + 4 * quarter * k) * 2 ^ 44 - m, ?_⟩
    rw [multiple]
    push_cast
    norm_num
    ring
  have zero : (count : Rat) * 2 ^ (-44 : Int) = 0 := by
    apply multipleZero (by positivity)
    rw [← distance]
    exact near.trans_lt (by norm_num)
  rw [← distance, sub_eq_zero] at zero
  rw [← oddQuartersResidue, ← zero]
  exact ⟨n, quarters⟩

/-- The residue is an odd count of quarter turns exactly for the odd counts of quarter turns and
beside the first quarter turn below zero. -/
theorem residueOddQuarters (whole : turn = 4 * quarter) (least : 90 ≤ quarter)
    (greatest : quarter ≤ 100) (finite : x.isFinite) :
    OddQuarters turn (value (residue turn x)) ↔
      OddQuarters turn (value x) ∨ |value x + quarter| ≤ 2 ^ (-45 : Int) := by
  have low : (90 : Rat) ≤ quarter := by exact_mod_cast least
  have high : (quarter : Rat) ≤ 100 := by exact_mod_cast greatest
  have cast := turnCast whole
  have tiny : (2 : Rat) ^ (-45 : Int) < 1 := by norm_num
  constructor
  · intro odd
    obtain ⟨first, last⟩ := exactResidueRange (show 0 < turn by omega) (value x)
    obtain ⟨_, _, near⟩ := nearestRadius first (by norm_num; linarith)
    rw [← residueNearest] at near
    by_cases large : 256 ≤ |value x|
    · exact .inl (oddQuartersFar whole large near odd)
    · obtain ⟨below, above⟩ := abs_lt.mp (not_le.mp large)
      rcases le_or_gt 0 (value x) with nonnegative | negative
      · -- The residue is the angle itself, so it is exact.
        have exact : exactResidue turn (value x) = magnitude x := by
          rw [exactResidueUnique 0, ← absValue, abs_of_nonneg nonnegative] <;>
            push_cast <;> linarith
        rw [residueNearest, exact, nearestMagnitudeValue finite, ← exact] at odd
        exact .inl (oddQuartersResidue.mp odd)
      · have exact : exactResidue turn (value x) = value x + turn := by
          rw [exactResidueUnique (-1)] <;> push_cast <;> linarith
        obtain ⟨lower, upper⟩ := abs_le.mp near
        rw [oddQuartersFirst whole (by omega) (by linarith) (by linarith)] at odd
        rcases odd with one | three
        · linarith
        · right
          rw [abs_le]
          constructor <;> linarith
  · rintro (odd | near)
    · exact residueOfOddQuarters whole (by omega) greatest odd
    · exact residueBeside whole least greatest near

end Quarters

end Calculator
