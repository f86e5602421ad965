/-
This file proves which displays are read back as the number they show.
-/

import Calculator.Proofs.Decimal.Stability
import Calculator.Proofs.Display.Numeral
import Calculator.Proofs.Retyping.Number

namespace Calculator

open Decimal Rational

namespace DisplayMode

/-- Numbers of one sign with the same significant digits have one display. -/
theorem renderEq (mode : DisplayMode) {x y : Float} (finite : x.isFinite) (finiteOther : y.isFinite)
    (nonzero : Binary64.value x ≠ 0) (nonzeroOther : Binary64.value y ≠ 0)
    (sign : Binary64.negative y = Binary64.negative x)
    (same : (significant mode.digits (Binary64.magnitude y)).trim =
      (significant mode.digits (Binary64.magnitude x)).trim) : mode.render y = mode.render x := by
  apply String.toList_inj.mp
  rw [renderNonzero mode finite nonzero, renderNonzero mode finiteOther nonzeroOther, sign, same]

section

variable {x : Float} {k N : Int}

theorem normalPlace (k : Int) : k - (DisplayMode.normal.digits : Int) + 1 = k - 9 := by
  simp only [digits]
  omega

/-- The nearest number to the shown value has the shown digits. -/
theorem nearestDigits (rounds : Rounds 10 (Binary64.magnitude x) k N)
    (inside : Binary64.nearestBits (N * 10 ^ (k - 9)) < Binary64.infinityBits) :
    0 < Binary64.magnitude (Binary64.nearest (N * 10 ^ (k - 9))) ∧
      (significant 10 (Binary64.magnitude (Binary64.nearest (N * 10 ^ (k - 9))))).trim =
        (significant 10 (Binary64.magnitude x)).trim := by
  obtain ⟨m, whole⟩ := Binary64.magnitudeWhole x
  obtain ⟨j, M, rounded, same⟩ := multipleRounds (whole ▸ rounds)
  have positive := roundsTenPositive rounds
  rw [Binary64.nearestMagnitude positive inside, ← multiple]
  refine ⟨rounded.positive, ?_⟩
  obtain ⟨trimmed, _, value⟩ := significantTrimmed .normal rounds
  obtain ⟨trimmedOther, _, valueOther⟩ := significantTrimmed .normal rounded
  rw [normalPlace] at value valueOther
  apply trimmedUnique trimmedOther trimmed
  exact valueOther.trans (same.trans value.symm)

/-- The nearest number to the shown value has the display with its sign. -/
theorem renderNearest (finite : x.isFinite) (nonzero : Binary64.value x ≠ 0)
    (rounds : Rounds 10 (Binary64.magnitude x) k N)
    (inside : Binary64.nearestBits (N * 10 ^ (k - 9)) < Binary64.infinityBits) :
    DisplayMode.normal.render (if Binary64.negative x then -Binary64.nearest (N * 10 ^ (k - 9))
      else Binary64.nearest (N * 10 ^ (k - 9))) = DisplayMode.normal.render x := by
  have positive := roundsTenPositive rounds
  obtain ⟨present, shown⟩ := nearestDigits rounds inside
  have plus := Binary64.nearestNegative positive
  have finiteNearest := (Binary64.nearestFinite positive).mpr inside
  have someNearest := Binary64.magnitudePos.mp present
  generalize Binary64.nearest (N * 10 ^ (k - 9)) = y at *
  cases minus : Binary64.negative x with
  | false =>
      have nonzeroNearest : Binary64.value y ≠ 0 := fun zero =>
        someNearest (Binary64.valueZero.mp zero)
      exact renderEq .normal finite finiteNearest nonzero nonzeroNearest (plus.trans minus.symm)
        shown
  | true =>
      have magnitude := Binary64.magnitudeNeg finiteNearest
      have nonzeroNearest : Binary64.value (-y) ≠ 0 := by
        intro zero
        rw [← abs_eq_zero, Binary64.absValue, magnitude] at zero
        exact present.ne' zero
      have sign : Binary64.negative (-y) = Binary64.negative x := by
        rw [Binary64.negativeNeg finiteNearest, plus, minus]
        rfl
      apply renderEq .normal finite (Binary64.finiteNeg finiteNearest) nonzero nonzeroNearest sign
      rw [magnitude]
      exact shown

/-- In the last decade the greatest ten digits within the range are 1797693134. -/
theorem lastDigits (N : Int) :
    (N : Rat) * 10 ^ (308 - 9 : Int) < Binary64.limit ↔ N ≤ 1797693134 := by
  have scale : (0 : Rat) < 10 ^ (308 - 9 : Int) := by positivity
  constructor
  · intro inside
    by_contra more
    have least : (1797693135 : Rat) ≤ N := by
      have : 1797693135 ≤ N := by omega
      exact_mod_cast this
    have beyond : Binary64.limit ≤ (1797693135 : Rat) * 10 ^ (308 - 9 : Int) :=
      Binary64.limitBounds.2.le.trans Binary64.limitDecimal.2
    exact absurd inside (not_lt.mpr (beyond.trans (mul_le_mul_of_nonneg_right least scale.le)))
  · intro most
    have mostCast : (N : Rat) ≤ 1797693134 := by exact_mod_cast most
    calc (N : Rat) * 10 ^ (308 - 9 : Int) ≤ 1797693134 * 10 ^ (308 - 9 : Int) :=
          mul_le_mul_of_nonneg_right mostCast scale.le
      _ < Binary64.limit := Binary64.limitDecimal.1

/-- The tie above the greatest digits goes to their even side. -/
theorem lastNearest {z : Rat} (near : NearestEven z N) :
    N ≤ 1797693134 ↔ z ≤ 17976931345 / 10 := by
  have tie : NearestEven (17976931345 / 10) 1797693134 := by
    constructor
    · norm_num
    · intro _
      norm_num
  constructor
  · intro most
    have mostCast : (N : Rat) ≤ 1797693134 := by exact_mod_cast most
    have := near.lower
    linarith
  · intro below
    exact near.mono tie below

/-- In the last decade the shown digits lie within the range up to this number. -/
theorem lastDecade {v : Rat} (rounds : Rounds 10 v 308 N) :
    (N : Rat) * 10 ^ (308 - 9 : Int) < Binary64.limit ↔ v ≤ 17976931345 * 10 ^ (298 : Int) := by
  have near := rounds.nearest
  rw [show ((10 : Nat) : Int) - 1 - 308 = -299 by decide] at near
  have shifted : (17976931345 : Rat) * 10 ^ (298 : Int) * 10 ^ (-299 : Int) =
      17976931345 / 10 := by
    rw [mul_assoc, powerMul (by norm_num) (show (298 : Int) + -299 = -1 by decide)]
    norm_num
  rw [lastDigits, lastNearest near, ← shifted]
  exact mul_le_mul_iff_of_pos_right (by positivity)

/-- Only the numbers of the last decade may be shown beyond the range. -/
theorem nearestBitsInside (finite : x.isFinite) (rounds : Rounds 10 (Binary64.magnitude x) k N) :
    Binary64.nearestBits (N * 10 ^ (k - 9)) < Binary64.infinityBits ↔
      Binary64.magnitude x ≤ 17976931345 * 10 ^ (298 : Int) := by
  have positive := roundsTenPositive rounds
  rw [Binary64.nearestBitsLimit positive]
  have order : k < 309 := by
    have below : (10 : Rat) ^ k < 10 ^ (309 : Int) := by
      have low := rounds.decade.1
      push_cast at low
      calc (10 : Rat) ^ k ≤ Binary64.magnitude x := low
        _ < 2 ^ (1024 : Int) := Binary64.magnitudeLt finite
        _ ≤ 1797693135 * 10 ^ (299 : Int) := Binary64.limitDecimal.2
        _ ≤ 10 ^ (10 : Int) * 10 ^ (299 : Int) := by gcongr; norm_num
        _ = 10 ^ (309 : Int) := powerMul (by norm_num) (by decide)
    exact (zpow_lt_zpow_iff_right₀ (by norm_num)).mp below
  by_cases last : k = 308
  · subst last
    exact lastDecade rounds
  · have power : (10 : Rat) ^ (k + 1) ≤ 10 ^ (308 : Int) :=
      zpow_le_zpow_right₀ (by norm_num) (by omega)
    have high := rounds.decade.2
    push_cast at high
    apply iff_of_true
    · calc (N : Rat) * 10 ^ (k - 9) ≤ 10 ^ (k + 1) := (roundsTenValue rounds).2
        _ ≤ 10 ^ (308 : Int) := power
        _ = 10 ^ (9 : Int) * 10 ^ (299 : Int) := (powerMul (by norm_num) (by decide)).symm
        _ ≤ 1797693134 * 10 ^ (299 : Int) := by gcongr; norm_num
        _ < Binary64.limit := Binary64.limitDecimal.1
    · calc Binary64.magnitude x ≤ 10 ^ (k + 1) := high.le
        _ ≤ 10 ^ (308 : Int) := power
        _ = 10 ^ (10 : Int) * 10 ^ (298 : Int) := (powerMul (by norm_num) (by decide)).symm
        _ ≤ 17976931345 * 10 ^ (298 : Int) := by gcongr; norm_num

end

variable {x : Float}

/-- The display of a number that is not zero is the text of its digits. -/
theorem renderCanonical (finite : x.isFinite) (nonzero : Binary64.value x ≠ 0) :
    ∃ k N whole fraction, Rounds 10 (Binary64.magnitude x) k N ∧ Whole whole ∧ Fraction fraction ∧
      DisplayMode.normal.render x =
        String.ofList (signed (Binary64.negative x) (whole ++ point fraction)) ∧
      (ofDigits whole fraction 0).value = N * 10 ^ (k - 9) := by
  have present : Binary64.significand x ≠ 0 := fun zero => nonzero (Binary64.valueZero.mpr zero)
  obtain ⟨k, N, rounds⟩ := roundsExists 10 (Binary64.magnitudePos.mpr present)
  obtain ⟨trimmed, _, value⟩ := significantTrimmed .normal rounds
  obtain ⟨whole, fraction, canonical, digits, text, same⟩ := positionalCanonical trimmed
  refine ⟨k, N, whole, fraction, rounds, canonical, digits, ?_, ?_⟩
  · rw [← text, ← String.toList_inj, renderNonzero .normal finite nonzero, String.toList_ofList]
    rfl
  · rw [same, value, normalPlace]

theorem renderNotMessage (finite : x.isFinite) : DisplayMode.normal.render x ≠ mathMessage :=
  (renderNumeral .normal finite).apart mathMessage (by simp [mathMessage])

/-- The display of a finite number is read back as itself, or it denotes no finite number. -/
theorem displayRendered (finite : x.isFinite) (answer : Float) (unit : AngleUnit) :
    (calculate (DisplayMode.normal.render x) answer unit .normal).display =
      if |Binary64.value x| ≤ 17976931345 * 10 ^ (298 : Int) then DisplayMode.normal.render x
      else mathMessage := by
  by_cases zero : Binary64.value x = 0
  · have shown := calculateSigned false Lexeme.zeroText answer unit .normal
    have nothing : (Binary64.nearest 0).isFinite := by decide
    rw [if_pos nothing, if_neg Bool.false_ne_true] at shown
    rw [renderZero .normal finite zero, zero, if_pos (by norm_num)]
    exact (congrArg Outcome.display shown).trans (by decide)
  · obtain ⟨k, N, whole, fraction, rounds, canonical, digits, text, same⟩ :=
      renderCanonical finite zero
    have number := Lexeme.numeralText canonical digits.digit Lexeme.endsNothing
    have positive := roundsTenPositive rounds
    have inside := nearestBitsInside finite rounds
    have reads := (Binary64.nearestFinite positive).trans inside
    conv => lhs; rw [text]
    rw [calculateSigned _ number, same, Binary64.absValue]
    by_cases below : Binary64.magnitude x ≤ 17976931345 * 10 ^ (298 : Int)
    · rw [if_pos (reads.mpr below), if_pos below]
      exact renderNearest finite zero rounds (inside.mpr below)
    · rw [if_neg fun finite => below (reads.mp finite), if_neg below]
      rfl

/-- The display of a finite number is read back as itself exactly when its ten digits lie within the
range, and every other display is refused as too large. -/
theorem displayReadsBack (x : Float) (finite : x.isFinite) (answer : Float) (unit : AngleUnit) :
    ((calculate (DisplayMode.normal.render x) answer unit .normal).display =
        DisplayMode.normal.render x ↔
      |Binary64.value x| ≤ 17976931345 * 10 ^ (298 : Int)) ∧
    (¬|Binary64.value x| ≤ 17976931345 * 10 ^ (298 : Int) →
      (calculate (DisplayMode.normal.render x) answer unit .normal).display = mathMessage) := by
  have shown := displayRendered finite answer unit
  by_cases below : |Binary64.value x| ≤ 17976931345 * 10 ^ (298 : Int)
  · rw [if_pos below] at shown
    exact ⟨iff_of_true shown below, fun beyond => absurd below beyond⟩
  · rw [if_neg below] at shown
    refine ⟨iff_of_false (fun same => ?_) below, fun _ => shown⟩
    exact renderNotMessage finite (same.symm.trans shown)

theorem displayReadsBackThird :
    (calculate "0.3333333333" 0 .degree .normal).display = "0.3333333333" := by
  have text : DisplayMode.normal.render (Float.ofBits 0x3FD5555555555555) = "0.3333333333" := by
    decide +kernel
  have reads := (displayReadsBack (Float.ofBits 0x3FD5555555555555) (by decide) 0 .degree).1.mpr
    (by decide +kernel)
  rwa [text] at reads

/-- The largest finite number is shown as 1797693135 before 299 zeros, which is refused. -/
theorem displayLargest :
    (calculate (DisplayMode.normal.render (Float.ofBits 0x7FEFFFFFFFFFFFFF)) 0 .degree
      .normal).display ≠ DisplayMode.normal.render (Float.ofBits 0x7FEFFFFFFFFFFFFF) := by
  have finite : (Float.ofBits 0x7FEFFFFFFFFFFFFF).isFinite := by decide
  have beyond : ¬|Binary64.value (Float.ofBits 0x7FEFFFFFFFFFFFFF)| ≤
      17976931345 * 10 ^ (298 : Int) := by decide +kernel
  rw [displayRendered finite, if_neg beyond]
  exact (renderNotMessage finite).symm

end DisplayMode

end Calculator
