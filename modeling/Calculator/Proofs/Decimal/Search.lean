/-
This file proves that the significant digits of a number do not depend on the start of the search
for its order.
-/

import Calculator.Proofs.Binary64.Closure
import Calculator.Proofs.Decimal.Layout
import Calculator.Proofs.Decimal.Significant
import Calculator.Proofs.Rational.Search

namespace Calculator.Decimal

open Rational

variable {count : Nat} {x : Rat} {k N : Int}

theorem significantFromEq (positive : 0 < x) (start : Int) :
    significantFrom count x start = significant count x := by
  obtain ⟨k, N, rounds⟩ := roundsExists count positive
  rw [significantFromRounds rounds, significantRounds rounds]

/-- The digits of a number between two powers of ten have their count. -/
theorem digitsLength {n : Nat} (counted : 0 < count) (low : 10 ^ (count - 1) ≤ n)
    (high : n < 10 ^ count) : (Nat.toDigits 10 n).length = count := by
  have most : (Nat.toDigits 10 n).length ≤ count :=
    (Nat.length_toDigits_le_iff (by decide) counted).mpr high
  by_contra short
  have less : 0 < count - 1 := by
    have := Nat.length_toDigits_pos (b := 10) (n := n)
    omega
  have small : (Nat.toDigits 10 n).length ≤ count - 1 := by omega
  have := (Nat.length_toDigits_le_iff (by decide) less).mp small
  omega

/-- The exponent of the first digit is the order, or it is one more after a carry. -/
theorem significantLead (rounds : Rounds count x k N) (counted : 0 < count) :
    (significant count x).digits.length = count ∧
      (significant count x).lead = if N = 10 ^ count then k + 1 else k := by
  obtain ⟨low, high⟩ := significantBounds rounds counted
  have length : (significant count x).digits.length = count := digitsLength counted low high
  refine ⟨length, ?_⟩
  obtain ⟨natural, _, _⟩ := rounds.bounds counted
  have carries : N = 10 ^ count ↔ N.toNat = 10 ^ count := by
    rw [natural, Int.toNat_natCast]
    exact_mod_cast Iff.rfl
  rw [lead, length, significantRounds rounds]
  simp only [carries]
  split
  · simp only
    omega
  · simp only
    omega

/-- The search ends at the order of a positive number from every start, and the digits are those of
its nearest multiple: they have their count, the first one is not zero, and only a carry to the next
power of ten moves the exponent of the first one. -/
theorem significantAnyStart (counted : 0 < count) {x : Float} (finite : x.isFinite)
    (positive : 0 < x) (start : Int) :
    let exact := Binary64.value x
    ∃ k, InDecade 10 exact k ∧ (∀ j, InDecade 10 exact j → j = k) ∧
      Loop (fun j => exact < 10 ^ j) (· - 1) start (start - k).toNat (descend 10 exact start) ∧
      Loop (fun j => 10 ^ (j + 1) ≤ exact) (· + 1) (descend 10 exact start) (k - start).toNat k ∧
      (significantFrom count exact start).digits.length = count ∧
      (∃ digit ∈ (significantFrom count exact start).digits.head?, digit ≠ '0') ∧
      (significantFrom count exact start).lead =
        (if roundHalfEven (exact * 10 ^ (count - 1 - k)) = 10 ^ count then k + 1 else k) ∧
      significantFrom count exact start = significant count (Binary64.magnitude x) := by
  intro exact
  have above : 0 < exact := by
    have values := (Binary64.ltIff (by decide) finite).mp positive
    rwa [Binary64.zeroValue] at values
  obtain ⟨k, N, rounds⟩ := roundsExists count above
  obtain ⟨length, lead⟩ := significantLead rounds counted
  obtain ⟨down, up⟩ := orderFromLoops (show 1 < 10 by decide) rounds.decade start
  rw [orderFromEq (by decide) rounds.decade] at up
  push_cast at down up
  have same : significantFrom count exact start = significant count exact :=
    significantFromEq above start
  have size : Binary64.magnitude x = exact := by rw [← Binary64.absValue, abs_of_pos above]
  have least := (significantBounds rounds counted).1
  rw [← roundEq rounds.nearest] at lead
  rw [same, size]
  exact ⟨k, rounds.decade, fun j inside => inside.unique (by decide) rounds.decade, down, up,
    length, digitsFirst (Nat.lt_of_lt_of_le (Nat.pow_pos (by decide)) least), lead, rfl⟩

/-- A search that starts far below takes every step upwards, and the carry of this number to the
next power of ten moves the exponent of its first digit. -/
theorem significantAnyStartCarry :
    let exact := Binary64.value 9999995
    (0 < 6 ∧ (9999995 : Float).isFinite ∧ (0 : Float) < 9999995) ∧ InDecade 10 exact 6 ∧
      Loop (fun j => exact < 10 ^ j) (· - 1) (-400) 0 (descend 10 exact (-400)) ∧
      Loop (fun j => 10 ^ (j + 1) ≤ exact) (· + 1) (descend 10 exact (-400)) 406 6 ∧
      (significantFrom 6 exact (-400)).digits.length = 6 ∧
      (significantFrom 6 exact (-400)).lead = 7 := by
  intro exact
  have finite : (9999995 : Float).isFinite := by decide
  have positive : (0 : Float) < 9999995 := by decide
  have decade : InDecade 10 exact 6 := by
    constructor <;> decide +kernel
  have carry : roundHalfEven (exact * 10 ^ (((6 : Nat) : Int) - 1 - 6)) = 10 ^ 6 := by
    decide +kernel
  obtain ⟨k, _, only, down, up, length, _, lead, _⟩ :=
    significantAnyStart (show 0 < 6 by decide) finite positive (-400)
  obtain rfl := only 6 decade
  rw [if_pos carry] at lead
  exact ⟨⟨by decide, finite, positive⟩, decade, down, up, length, lead⟩

end Calculator.Decimal
