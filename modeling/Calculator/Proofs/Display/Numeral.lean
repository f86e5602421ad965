/-
This file proves that the display of a finite number is a numeral and never a message.
-/

import Calculator.Proofs.Display.Rendering

namespace Calculator.DisplayMode

open Decimal

/-- A numeral of a mode is its zero or the canonical text of a number. -/
inductive Numeral : DisplayMode → String → Prop where
  | zero : Numeral .normal "0"
  | zeroPower : Numeral .scientific "0e0"
  | number {mode : DisplayMode} {text : String} {value : Rat} :
      mode.Denotes text.toList value → Numeral mode text

theorem renderNumeral (mode : DisplayMode) {x : Float} (finite : x.isFinite) :
    mode.Numeral (mode.render x) := by
  by_cases zero : Binary64.value x = 0
  · rw [renderZero mode finite zero]
    cases mode with
    | normal => exact .zero
    | scientific => exact .zeroPower
  · have positive := Binary64.magnitudePos.mpr fun none => zero (Binary64.valueZero.mpr none)
    obtain ⟨k, N, rounds⟩ := roundsExists mode.digits positive
    obtain ⟨trimmed, short, _⟩ := significantTrimmed mode rounds
    have shown := layoutDenotes mode (Binary64.negative x) trimmed short
    rw [← renderNonzero mode finite zero] at shown
    exact .number shown

/-- A sign stands before a digit, so the text starts with one of them. -/
theorem signedStarts (minus : Bool) {chars : List Char} (digit : ∃ c ∈ chars.head?, c.isDigit) :
    ∃ first ∈ (signed minus chars).head?, first.isDigit ∨ first = '-' := by
  obtain ⟨c, head, digit⟩ := digit
  cases minus with
  | true => exact ⟨'-', rfl, .inr rfl⟩
  | false => exact ⟨c, head, .inl digit⟩

theorem Numeral.starts {mode : DisplayMode} {text : String} (numeral : mode.Numeral text) :
    ∃ first ∈ text.toList.head?, first.isDigit ∨ first = '-' := by
  cases numeral with
  | zero | zeroPower => exact ⟨'0', rfl, .inl (by decide)⟩
  | number denotes =>
      generalize text.toList = chars at denotes ⊢
      cases denotes with
      | positional minus whole _ =>
          obtain ⟨c, rest, rfl⟩ := whole.cons
          exact signedStarts minus ⟨c, rfl, whole.digit c (by simp)⟩
      | scientific minus digit _ _ _ _ => exact signedStarts minus ⟨_, rfl, digit⟩

/-- A text that starts otherwise is not a numeral. -/
theorem Numeral.apart {mode : DisplayMode} {text : String} (numeral : mode.Numeral text)
    (other : String) (letter : ∀ c ∈ other.toList.head?, c.isDigit = false ∧ c ≠ '-') :
    text ≠ other := by
  rintro rfl
  obtain ⟨first, head, digit | minus⟩ := numeral.starts
  · rw [(letter first head).1] at digit
    cases digit
  · exact (letter first head).2 minus

end Calculator.DisplayMode
