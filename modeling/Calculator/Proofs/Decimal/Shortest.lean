/-
This file proves that the shortest digits of a number read back as the number.
-/

import Calculator.Proofs.Binary64.Closest
import Calculator.Proofs.Decimal.Layout
import Calculator.Proofs.Decimal.Nearest
import Calculator.Token.Basic

namespace Calculator.Decimal

open Binary64

variable {x : Float} {tie : Tie}

/-- A decimal number is found only if it reads back. -/
theorem onGridReads {power : Int} {d : Decimal} (found : onGrid? tie x power = some d) :
    d.toFloat = x := by
  unfold onGrid? at found
  simp only at found
  split at found
  · next lower =>
    split at found
    · next upper =>
      cases found
      split
      · exact upper
      · exact lower
    · cases found
      exact lower
  · split at found
    · next upper =>
      cases found
      exact upper
    · cases found

/-- A power of two is a power of ten over a power of five. -/
theorem exactValue (x : Float) : (exact x).value = magnitude x := by
  rw [exact, magnitude]
  split
  · next integral =>
    obtain ⟨shift, exponent⟩ : ∃ shift : Nat, Binary64.exponent x = shift :=
      ⟨(Binary64.exponent x).toNat, by omega⟩
    rw [value, exponent]
    simp only [Int.toNat_natCast, Nat.pow_eq, zpow_zero, mul_one, zpow_natCast]
    push_cast
    rfl
  · next fractional =>
    obtain ⟨places, exponent⟩ : ∃ places : Nat, Binary64.exponent x = -places :=
      ⟨(-Binary64.exponent x).toNat, by omega⟩
    have ten : (10 : Rat) ^ places = 2 ^ places * 5 ^ places := by
      rw [← mul_pow]
      norm_num
    rw [value, exponent]
    simp only [neg_neg, Int.toNat_natCast, Nat.pow_eq, zpow_neg, zpow_natCast, ten]
    push_cast
    field_simp

theorem exactReads (plus : negative x = false) (finite : x.isFinite) : (exact x).toFloat = x := by
  rw [toFloatNearest, exactValue, nearestSelf plus finite]

/-- Some decimal number reads back before its zeros are trimmed. -/
theorem shortestTrims (tie : Tie) (plus : negative x = false) (finite : x.isFinite) :
    ∃ d : Decimal, d.toFloat = x ∧ shortest tie x = d.trim := by
  refine ⟨_, ?_, rfl⟩
  cases found : (List.range 17).findSome? fun (extra : Nat) =>
      onGrid? tie x (Rational.order 10 (magnitude x) - extra) with
  | none => exact exactReads plus finite
  | some d =>
      obtain ⟨_, _, reads⟩ := List.exists_of_findSome?_eq_some found
      exact onGridReads reads

theorem coefficientPositive {d : Decimal} (reads : d.toFloat = x) (nonzero : significand x ≠ 0) :
    0 < d.coefficient := by
  apply Nat.pos_of_ne_zero
  intro zero
  rw [toFloat, if_pos zero] at reads
  rw [← reads] at nonzero
  exact nonzero (by decide)

end Calculator.Decimal

namespace Calculator

open Binary64 Decimal

/-- The spelling of a number is a numeral that reads back as the number. -/
theorem spellReads {x : Float} (plus : negative x = false) (finite : x.isFinite) :
    ∃ whole fraction, Whole whole ∧ Fraction fraction ∧ spellNumber x = whole ++ point fraction ∧
      (ofDigits whole fraction 0).toFloat = x := by
  have number : x.isNaN = false := nanOfFinite finite
  have bounded : x.isInf = false := infOfFinite finite
  rw [spellNumber]
  simp only [number, bounded, plus, Bool.false_eq_true, if_false, List.nil_append]
  split
  · next zero =>
    refine ⟨['0'], [], ⟨by simp, .inl rfl⟩, ⟨by simp, by simp⟩, rfl, ?_⟩
    apply eqOfValue (by decide) plus (by decide) finite
    rw [valueZero.mpr zero]
    decide +kernel
  · next nonzero =>
    obtain ⟨d, reads, same⟩ := shortestTrims .upward plus finite
    have trimmed := trimTrimmed (coefficientPositive reads nonzero)
    obtain ⟨whole, fraction, wholeDigits, fractionDigits, text, value⟩ :=
      positionalCanonical trimmed
    rw [absPlus plus finite, same]
    refine ⟨whole, fraction, wholeDigits, fractionDigits, text, ?_⟩
    rw [toFloatNearest, value, trimValue, ← toFloatNearest, reads]

/-- The spelling of a negative number is that of its opposite after a minus sign. -/
theorem spellMinus {x : Float} (minus : negative x = true) (finite : x.isFinite) :
    spellNumber x = '-' :: spellNumber (-x) := by
  have plus : negative (-x) = false := by rw [negativeNeg finite, minus, Bool.not_true]
  have absolute := absPlus plus (finiteNeg finite)
  simp only [spellNumber, nanOfFinite finite, infOfFinite finite, nanOfFinite (finiteNeg finite),
    infOfFinite (finiteNeg finite), minus, plus, significandNeg finite, absMinus minus, absolute,
    Bool.false_eq_true, if_false, if_true, List.nil_append, apply_ite (List.cons '-')]
  rfl

end Calculator
