/-
This file proves what remains of a text without the blanks at its ends.
-/

import Calculator.Text.Blank
import Mathlib.Data.List.DropRight

namespace Calculator.Text

variable {chars : List Char}

/-- A text is its trimmed text between blanks. -/
theorem trimSplits (chars : List Char) : ∃ after, (∀ c ∈ after, isBlank c) ∧
    chars = chars.takeWhile isBlank ++ (trim chars ++ after) := by
  refine ⟨((chars.dropWhile isBlank).reverse.takeWhile isBlank).reverse, fun c member => ?_, ?_⟩
  · exact List.all_eq_true.mp List.all_takeWhile c (List.mem_reverse.mp member)
  · rw [trim, ← List.reverse_append, List.takeWhile_append_dropWhile, List.reverse_reverse,
      List.takeWhile_append_dropWhile]

/-- A text of blanks is trimmed to nothing. -/
theorem trimEmpty : trim chars = [] ↔ ∀ c ∈ chars, isBlank c := by
  constructor
  · intro empty c member
    obtain ⟨after, blank, split⟩ := trimSplits chars
    rw [split, empty, List.nil_append] at member
    rcases List.mem_append.mp member with before | last
    · exact List.all_eq_true.mp List.all_takeWhile c before
    · exact blank c last
  · intro blank
    have dropped : chars.dropWhile isBlank = [] := List.dropWhile_eq_nil_iff.mpr blank
    rw [trim, dropped]
    rfl

/-- No blank stands at the ends of a trimmed text. -/
theorem trimTrim (chars : List Char) : trim (trim chars) = trim chars := by
  have begins : (trim chars).dropWhile isBlank = trim chars := by
    rw [List.dropWhile_eq_self_iff]
    intro present
    have shorter : trim chars <+: chars.dropWhile isBlank := List.rdropWhile_prefix isBlank _
    have first := shorter.getElem present
    rw [first]
    exact List.dropWhile_get_zero_not isBlank chars _
  have ends : (trim chars).rdropWhile isBlank = trim chars := List.rdropWhile_idempotent isBlank _
  rw [trim, begins]
  exact ends

end Calculator.Text
