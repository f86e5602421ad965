/-
This file proves that a rational number is rounded to its nearest integer.
-/

import Calculator.Rational.Rounding
import Mathlib.Algebra.Order.Ring.Abs
import Mathlib.Data.Rat.Cast.Order
import Mathlib.Tactic.Linarith

namespace Calculator.Rational

/-- A distance grows with its scale. -/
theorem absScale {scale : Rat} (positive : 0 < scale) (x y : Rat) :
    |x * scale - y * scale| = |x - y| * scale := by
  rw [← sub_mul, abs_mul, abs_of_pos positive]

/-- No integer lies nearer, and a tie goes to the even integer. -/
def NearestEven (x : Rat) (n : Int) : Prop :=
  |x - n| ≤ 1 / 2 ∧ (|x - n| = 1 / 2 → n % 2 = 0)

namespace NearestEven

variable {x y : Rat} {m n : Int}

theorem lower (nearest : NearestEven x n) : x - 1 / 2 ≤ n := by
  have := (abs_le.mp nearest.1).2
  linarith

theorem upper (nearest : NearestEven x n) : (n : Rat) ≤ x + 1 / 2 := by
  have := (abs_le.mp nearest.1).1
  linarith

/-- The distance of two neighbours is one, so a tie lies between an even and an odd integer. -/
theorem notSucc (first : NearestEven x m) (second : NearestEven x n) : m ≠ n + 1 := by
  rintro rfl
  have low := first.upper
  have high := second.lower
  push_cast at low
  have tie : x - n = 1 / 2 := by linarith
  have tieAbove : |x - n| = 1 / 2 := by
    rw [tie]
    norm_num
  have tieBelow : |x - (n + 1 : Int)| = 1 / 2 := by
    push_cast
    rw [show x - (n + 1) = -(1 / 2) by linarith]
    norm_num
  have evenAbove := first.2 tieBelow
  have evenBelow := second.2 tieAbove
  omega

/-- A larger number has no smaller nearest integer. -/
theorem mono (first : NearestEven x m) (second : NearestEven y n) (le : x ≤ y) : m ≤ n := by
  by_contra above
  have gap : n + 1 ≤ m := by omega
  have low := first.upper
  have high := second.lower
  have gapCast : ((n : Rat) + 1) ≤ m := by exact_mod_cast gap
  have same : x = y := by linarith
  have close : (m : Rat) < n + 2 := by linarith
  have closeInt : m < n + 2 := by exact_mod_cast close
  subst same
  exact first.notSucc second (by omega)

theorem unique (first : NearestEven x m) (second : NearestEven x n) : m = n :=
  Int.le_antisymm (first.mono second (le_refl x)) (second.mono first (le_refl x))

/-- No integer lies nearer, and only an even integer lies as near as another one. -/
theorem closest (nearest : NearestEven x n) (m : Int) :
    |x - n| ≤ |x - m| ∧ (|x - n| = |x - m| → m = n ∨ n % 2 = 0) := by
  by_cases same : m = n
  · subst same
    exact ⟨le_refl _, fun _ => .inl rfl⟩
  · have apart : (1 : Rat) ≤ |((n - m : Int) : Rat)| := by
      have distance : 1 ≤ |n - m| := Int.one_le_abs (by omega)
      exact_mod_cast distance
    have triangle : |((n - m : Int) : Rat)| ≤ |x - m| + |x - n| := by
      push_cast
      rw [show (n : Rat) - m = (x - m) - (x - n) by linarith]
      exact abs_sub _ _
    have near := nearest.1
    refine ⟨by linarith, fun tie => .inr (nearest.2 (by linarith))⟩

theorem ofInt (n : Int) : NearestEven n n := by
  constructor
  · simp
  · intro tie
    simp at tie

end NearestEven

variable {x y : Rat}

/-- The rounding follows its definition: the part above the floor lies below, above or at the
half. -/
theorem roundNearest (x : Rat) : NearestEven x (roundHalfEven x) := by
  have low := Rat.floor_le x
  have high := Rat.lt_floor_add_one x
  push_cast at high
  have below : |x - x.floor| = x - x.floor := abs_of_nonneg (by linarith)
  have above : |x - (x.floor + 1 : Int)| = x.floor + 1 - x := by
    push_cast
    rw [abs_of_nonpos (by linarith), neg_sub]
  simp only [roundHalfEven]
  split
  · next near =>
    rw [NearestEven, below]
    exact ⟨near.le, fun tie => absurd tie near.ne⟩
  · next far =>
    split
    · next near =>
      rw [NearestEven, above]
      exact ⟨by linarith, fun tie => absurd tie (by linarith)⟩
    · next near =>
      have tie : x - x.floor = 1 / 2 := by linarith
      split
      · next even =>
        rw [NearestEven, below, tie]
        exact ⟨le_refl _, fun _ => even⟩
      · next odd =>
        rw [NearestEven, above]
        exact ⟨by linarith, fun _ => by omega⟩

theorem roundEq {n : Int} (nearest : NearestEven x n) : roundHalfEven x = n :=
  (roundNearest x).unique nearest

theorem roundInt (n : Int) : roundHalfEven n = n :=
  roundEq (.ofInt n)

theorem roundMono (le : x ≤ y) : roundHalfEven x ≤ roundHalfEven y :=
  (roundNearest x).mono (roundNearest y) le

/-- An integer at or below a number is at or below its rounding. -/
theorem leRound {n : Int} (below : (n : Rat) ≤ x) : n ≤ roundHalfEven x := by
  rw [← roundInt n]
  exact roundMono below

theorem roundLe {n : Int} (above : x ≤ n) : roundHalfEven x ≤ n := by
  rw [← roundInt n]
  exact roundMono above

end Calculator.Rational
