/-
This file proves that every scientific display can be typed as the closest number to its text.
-/

import Calculator.Proofs.Display.Order

namespace Calculator

open Binary64 Decimal DisplayMode Rational

/-- The text of a number within the range is calculated as its closest number. -/
theorem calculateInside {chars : List Char} {d : Rat} (text : Lexeme.SignedText chars d)
    (inside : |d| < limit) :
    ∃ y, ClosestFinite d y ∧ ∀ answer unit mode,
      calculate (String.ofList chars) answer unit mode = ⟨mode.render y, some y⟩ := by
  obtain @⟨minus, text, size, number⟩ := text
  have nonnegative := number.nonnegative
  have absolute : |if minus then -size else size| = size := by
    cases minus <;> simp [abs_of_nonneg nonnegative]
  rw [absolute] at inside
  have closest := ((closestIff nonnegative).mpr rfl).within nonnegative inside
  have signed : ClosestFinite (if minus then -size else size)
      (if minus then -nearest size else nearest size) := by
    cases minus with
    | false => exact closest
    | true => exact closest.opposite
  refine ⟨_, signed, fun answer unit mode => ?_⟩
  rw [calculateSigned minus number, if_pos closest.finite]
  rfl

namespace DisplayMode

section

variable {x : Float}

/-- Six digits round the end of the range down. -/
theorem shownGreatest : DisplayMode.scientific.shown (1797693135 * 10 ^ (299 : Int)) =
    179769 * 10 ^ (303 : Int) := by
  have scaled : (1797693135 : Rat) * 10 ^ (299 : Int) * 10 ^ (((6 : Nat) : Int) - 1 - 308) =
      1797693135 / 10000 := by
    rw [mul_assoc, powerMul (by norm_num) (show (299 : Int) + _ = -4 by decide)]
    norm_num
  have nearest : NearestEven (1797693135 / 10000) 179769 := by
    constructor <;> norm_num
  have rounds : Rounds 6 (1797693135 * 10 ^ (299 : Int)) 308 179769 := by
    apply Rounds.ofScaled <;> rw [scaled]
    · norm_num
    · norm_num
    · exact nearest
  rw [shownNonnegative (by positivity)]
  exact (significantValue rounds (by decide)).trans (by norm_num)

/-- Six digits carry no finite number beyond the range. -/
theorem shownInside (finite : x.isFinite) :
    |DisplayMode.scientific.shown (value x)| < limit := by
  have below : |value x| ≤ 1797693135 * 10 ^ (299 : Int) := by
    rw [absValue]
    exact (magnitudeLt finite).le.trans limitDecimal.2
  calc |DisplayMode.scientific.shown (value x)| = DisplayMode.scientific.shown |value x| :=
        shownAbs .scientific (value x)
    _ ≤ DisplayMode.scientific.shown (1797693135 * 10 ^ (299 : Int)) := shownMono .scientific below
    _ = 179769 * 10 ^ (303 : Int) := shownGreatest
    _ = 1797690000 * 10 ^ (299 : Int) := by
        rw [show (303 : Int) = 4 + 299 by decide, zpow_add₀ (by norm_num)]
        ring
    _ < 1797693134 * 10 ^ (299 : Int) := by gcongr; norm_num
    _ < limit := limitDecimal.1

/-- The digits of a mode bring no finite number down to half the least step. -/
theorem shownApart (mode : DisplayMode) (x : Float) :
    mode.shown (value x) = 0 ∨ 2 ^ (-1075 : Int) < |mode.shown (value x)| := by
  by_cases zero : value x = 0
  · left
    rw [zero, shownZero]
  · right
    have positive := abs_pos.mpr zero
    have half := shownHalf mode positive
    have step : 2 * 2 ^ (-1075 : Int) ≤ |value x| := by
      rw [absValue] at positive ⊢
      rw [← zpow_one_add₀ (by norm_num)]
      exact magnitudeStep positive
    rw [shownAbs]
    linarith

end

/-- The scientific display of a finite number is typed as the closest number to the decimal that it
denotes. This number is finite and has the sign of the first one. -/
theorem scientificTyped {x : Float} (finite : x.isFinite) :
    ∃ d y, (∀ r, Shows (DisplayMode.scientific.render x) r ↔ r = d) ∧ ClosestFinite d y ∧
      SignType.sign (value y) = SignType.sign (value x) ∧
      ∀ answer unit mode, calculate (typed (DisplayMode.scientific.render x)) answer unit mode =
        ⟨mode.render y, some y⟩ := by
  have shows := renderShows .scientific finite
  obtain ⟨y, closest, calculated⟩ := calculateInside shows (shownInside finite)
  rw [String.ofList_toList] at calculated
  have sign := (closest.sign (shownApart .scientific x)).trans (shownSign .scientific (value x))
  exact ⟨_, y, showsIff .scientific finite, closest, sign, calculated⟩

/-- The least number keeps its minus sign. -/
theorem scientificTypedLeast :
    (Float.ofBits 0x8000000000000001).isFinite ∧
    typed (DisplayMode.scientific.render (Float.ofBits 0x8000000000000001)) = "-4.94066E-324" ∧
    ∃ d y, (∀ r, Shows (DisplayMode.scientific.render (Float.ofBits 0x8000000000000001)) r ↔
        r = d) ∧ ClosestFinite d y ∧
      SignType.sign (value y) = SignType.sign (value (Float.ofBits 0x8000000000000001)) ∧
      ∀ answer unit mode,
        calculate (typed (DisplayMode.scientific.render (Float.ofBits 0x8000000000000001))) answer
          unit mode = ⟨mode.render y, some y⟩ :=
  have finite : (Float.ofBits 0x8000000000000001).isFinite := by decide
  ⟨finite, by decide +kernel, scientificTyped finite⟩

end DisplayMode

end Calculator
