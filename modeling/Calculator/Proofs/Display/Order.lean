/-
This file proves that a larger number has no smaller display.
-/

import Calculator.Proofs.Binary64.Comparison
import Calculator.Proofs.Display.Denotation

namespace Calculator.DisplayMode

open Binary64 Decimal

/-- The shown values of opposite numbers are opposite, so the positive numbers decide. -/
theorem shownMono (mode : DisplayMode) : Monotone mode.shown := by
  apply monotone_of_odd_of_monotoneOn_nonneg (shownOpposite mode)
  intro p nonnegative q _ le
  rcases (Set.mem_Ici.mp nonnegative).eq_or_lt with rfl | positive
  · rw [shownZero]
    rcases le.eq_or_lt with rfl | above
    · exact (shownZero mode).ge
    · exact (shownPositive above).le
  · rw [shownNonnegative positive.le, shownNonnegative (positive.le.trans le)]
    exact significantMono mode.digitsPositive positive le

/-- Each display denotes one number, and these numbers stand in the order of the values. -/
theorem renderMono (mode : DisplayMode) {x y : Float} (finite : x.isFinite)
    (finiteOther : y.isFinite) (le : x ≤ y) :
    ∃ p q, (∀ r, Shows (mode.render x) r ↔ r = p) ∧ (∀ r, Shows (mode.render y) r ↔ r = q) ∧
      p ≤ q := by
  have ordered := shownMono mode ((leIff finite finiteOther).mp le)
  exact ⟨_, _, showsIff mode finite, showsIff mode finiteOther, ordered⟩

/-- The first number is a tie that carries into the next decade. -/
theorem renderMonoCarry :
    (999999.5 : Float).isFinite ∧ (1000001 : Float).isFinite ∧ (999999.5 : Float) ≤ 1000001 ∧
    DisplayMode.scientific.render 999999.5 = "1e6" ∧
    DisplayMode.scientific.render 1000001 = "1e6" ∧
    ∃ p q, (∀ r, Shows (DisplayMode.scientific.render 999999.5) r ↔ r = p) ∧
      (∀ r, Shows (DisplayMode.scientific.render 1000001) r ↔ r = q) ∧ p ≤ q :=
  have finite : (999999.5 : Float).isFinite := by decide
  have finiteOther : (1000001 : Float).isFinite := by decide
  have le : (999999.5 : Float) ≤ 1000001 := by decide
  ⟨finite, finiteOther, le, by decide +kernel, by decide +kernel,
    renderMono .scientific finite finiteOther le⟩

end Calculator.DisplayMode
