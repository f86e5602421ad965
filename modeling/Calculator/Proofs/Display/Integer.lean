/-
This file proves that the normal display of a short integer is its plain numeral.
-/

import Calculator.Proofs.Binary64.Integer
import Calculator.Proofs.Display.Rendering

namespace Calculator

namespace Decimal

open Rational

/-- A power of ten adds zeros to the digits. -/
theorem toDigitsZeros {n : Nat} (positive : 0 < n) (k : Nat) :
    Nat.toDigits 10 (n * 10 ^ k) = Nat.toDigits 10 n ++ List.replicate k '0' := by
  induction k with
  | zero => simp
  | succ k inductionHypothesis =>
      have present : 0 < n * 10 ^ k := by positivity
      have quotient : n * 10 ^ (k + 1) / 10 = n * 10 ^ k := by
        rw [pow_succ, ← mul_assoc, Nat.mul_div_cancel _ (by decide)]
      have last : n * 10 ^ (k + 1) % 10 = 0 := by rw [pow_succ, ← mul_assoc, Nat.mul_mod_left]
      have several : 10 ≤ n * 10 ^ (k + 1) := by
        rw [pow_succ, ← mul_assoc]
        omega
      rw [Nat.toDigits_of_base_le (by decide) several, quotient, last, inductionHypothesis,
        List.replicate_succ', List.append_assoc]
      rfl

/-- A trimmed decimal number with an integral value is laid out without a point. -/
theorem positionalInteger {d : Decimal} {n : Nat} (trimmed : d.Trimmed) (value : d.value = n) :
    d.positional = Nat.toDigits 10 n := by
  have whole : d.value = (⟨n, 0⟩ : Decimal).value := by
    rw [value]
    simp [Decimal.value]
  have integral : 0 ≤ d.exponent := exponentLe trimmed whole
  obtain ⟨k, zeros⟩ := Int.eq_ofNat_of_zero_le integral
  have spelled : n = d.coefficient * 10 ^ k := by
    rw [Decimal.value, zeros, zpow_natCast] at value
    exact_mod_cast value.symm
  rw [positional, if_pos integral, zeros, spelled, toDigitsZeros trimmed.positive]
  rfl

/-- No digit of a short integer is rounded away, and its zeros are laid out again. -/
theorem significantInteger {count n : Nat} (positive : 0 < n) (short : n < 10 ^ count) :
    (significant count n).trim.positional = Nat.toDigits 10 n := by
  have above : (0 : Rat) < n := by exact_mod_cast positive
  have counted : 0 < count := by
    apply Nat.pos_of_ne_zero
    rintro rfl
    rw [pow_zero] at short
    omega
  obtain ⟨k, N, rounds⟩ := roundsExists count above
  have lead : k < count := by
    have below : (n : Rat) < 10 ^ (count : Int) := by exact_mod_cast short
    have low := rounds.decade.1
    push_cast at low
    exact (zpow_lt_zpow_iff_right₀ (by norm_num)).mp (low.trans_lt below)
  obtain ⟨places, fine⟩ : ∃ places : Nat, (count : Int) - 1 - k = places :=
    ⟨(count - 1 - k).toNat, by omega⟩
  have exact : (n : Rat) * 10 ^ ((count : Int) - 1 - k) = ((n * 10 ^ places : Nat) : Int) := by
    rw [fine, zpow_natCast]
    push_cast
    rfl
  have rounded : N = (n * 10 ^ places : Nat) := by
    have near := rounds.nearest
    rw [exact] at near
    exact near.unique (.ofInt _)
  have back : k - count + 1 = -(places : Int) := by omega
  have value : (significant count n).value = n := by
    rw [significantValue rounds counted, rounded, ← exact, fine, back,
      powerCancel (by norm_num) _ (add_neg_cancel _)]
  have present : 0 < (significant count n).coefficient :=
    (Nat.pow_pos (by decide)).trans_le (significantBounds rounds counted).1
  exact positionalInteger (trimTrimmed present) ((trimValue _).trans value)

end Decimal

/-- The text of an integer is its digits after its sign. -/
theorem toListInt (n : Int) :
    (toString n).toList = DisplayMode.signed (n < 0) (Nat.toDigits 10 n.natAbs) := by
  cases n with
  | ofNat m =>
      have plus : ¬Int.ofNat m < 0 := Int.not_lt.mpr (Int.natCast_nonneg m)
      rw [decide_eq_false plus]
      exact Nat.toList_repr
  | negSucc m =>
      have minus : Int.negSucc m < 0 := Int.negSucc_lt_zero m
      rw [decide_eq_true minus]
      show ("-" ++ Nat.repr (m + 1)).toList = '-' :: Nat.toDigits 10 (m + 1)
      rw [String.toList_append, Nat.toList_repr]
      rfl

/-- The normal display of a short integer has neither a point nor an exponent, and both zeros are
shown without a sign. -/
theorem DisplayMode.renderInteger {x : Float} {n : Int} (integer : Binary64.IsInteger x n)
    (short : n.natAbs < 10 ^ 10) : DisplayMode.normal.render x = toString n := by
  by_cases zero : n = 0
  · have nothing : Binary64.value x = 0 := by rw [integer.value, zero, Int.cast_zero]
    rw [renderZero .normal integer.finite nothing, zero]
    rfl
  · have nonzero : Binary64.value x ≠ 0 := by
      rw [integer.value]
      exact_mod_cast zero
    have size : Binary64.magnitude x = n.natAbs := by
      rw [← Binary64.absValue, integer.value, Nat.cast_natAbs, Int.cast_abs]
    have positive : 0 < n.natAbs := Int.natAbs_pos.mpr zero
    have sign : Binary64.negative x = decide (n < 0) := by
      have minus := Binary64.valueNeg (mt Binary64.valueZero.mpr nonzero)
      rw [integer.value, Int.cast_lt_zero] at minus
      rw [Bool.eq_iff_iff, decide_eq_true_iff]
      exact minus.symm
    apply String.toList_inj.mp
    rw [renderNonzero .normal integer.finite nonzero, size, sign, toListInt]
    exact congrArg (signed _) (Decimal.significantInteger positive short)

end Calculator
