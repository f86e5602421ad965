/-
This file proves that the canonical text of a decimal number is one piece.
-/

import Calculator.Proofs.Decimal.Layout
import Calculator.Proofs.Scanning.Cutting

namespace Calculator.Lexeme

open Decimal

variable {whole fraction rest : List Char}

theorem EndsNumeral.stops (ends : EndsNumeral rest) : ∀ c ∈ rest.head?, c.isDigit = false := by
  intro c member
  rw [Bool.eq_false_iff]
  exact fun digit => ends.without (inNumeralDigit digit) member

theorem endsSymbol {c : Char} (other : inNumeral c = false) (rest : List Char) :
    EndsNumeral (c :: rest) :=
  fun first member => by rwa [← Option.some.inj member]

theorem endsNothing : EndsNumeral [] := by
  simp [EndsNumeral]

/-- The digits and the point of a numeral are the parts of a number. -/
theorem mantissaNumeral (canonical : Whole whole) (fractionDigits : ∀ c ∈ fraction, c.isDigit)
    (stops : ∀ c ∈ rest.head?, c.isDigit = false) (apart : '.' ∉ rest.head?) :
    Mantissa whole (point fraction) fraction rest := by
  obtain ⟨first, others, spelled⟩ := canonical.cons
  have present : whole ≠ [] := by simp [spelled]
  cases fraction with
  | nil => exact ⟨⟨canonical.digit, stops⟩, .without apart, .inl present⟩
  | cons c after =>
      have run : Run whole ('.' :: (c :: after ++ rest)) :=
        ⟨canonical.digit, fun point member => by cases member; decide⟩
      exact ⟨run, .point ⟨fractionDigits, stops⟩, .inl present⟩

/-- An integer is the exponent after its mark. -/
theorem scaledInteger {power : List Char} {exponent : Int} (integer : Integer power exponent) :
    Scaled ('E' :: power) exponent [] := by
  have run {digits : List Char} (whole : Whole digits) : Run digits [] ∧ digits ≠ [] := by
    obtain ⟨first, others, spelled⟩ := whole.cons
    exact ⟨⟨whole.digit, by simp⟩, by simp [spelled]⟩
  cases integer with
  | nonnegative whole =>
      obtain ⟨digitRun, present⟩ := run whole
      have apart {c : Char} (other : c.isDigit = false) : c ∉ (power ++ []).head? := by
        intro member
        rw [List.append_nil] at member
        rw [whole.digit c (List.mem_of_mem_head? member)] at other
        cases other
      have scaled := Scaled.mark (.without (apart (by decide)) (apart (by decide))) digitRun present
      rwa [one_mul] at scaled
  | negative whole _ =>
      obtain ⟨digitRun, present⟩ := run whole
      have scaled := Scaled.mark .minus digitRun present
      rwa [neg_one_mul] at scaled

/-- A numeral is one number if no numeral goes on after it. -/
theorem numeralText (canonical : Whole whole) (fractionDigits : ∀ c ∈ fraction, c.isDigit)
    (ends : EndsNumeral rest) :
    NumberText (whole ++ point fraction) (ofDigits whole fraction 0).value rest := by
  have mantissa : Mantissa whole (point fraction) fraction ([] ++ rest) :=
    mantissaNumeral canonical fractionDigits ends.stops (ends.without (by decide))
  have number := NumberText.exponent mantissa (.without (ends.without (by decide)))
  rwa [List.append_nil] at number

/-- A numeral with an exponent after it is one number too. -/
theorem powerText (canonical : Whole whole) (fractionDigits : ∀ c ∈ fraction, c.isDigit)
    {power : List Char} {exponent : Int} (integer : Integer power exponent) :
    NumberText (whole ++ (point fraction ++ 'E' :: power)) (ofDigits whole fraction exponent).value
      [] := by
  have mantissa : Mantissa whole (point fraction) fraction ('E' :: power ++ []) :=
    mantissaNumeral canonical fractionDigits (by simp) (by simp)
  exact .exponent mantissa (scaledInteger integer)

theorem zeroWhole : Whole ['0'] :=
  ⟨by simp, .inl rfl⟩

theorem zeroText : NumberText ['0'] 0 [] := by
  have number := @numeralText ['0'] [] [] zeroWhole (by simp) endsNothing
  have nothing : (ofDigits ['0'] [] 0).value = 0 := zero_mul _
  rwa [nothing] at number

theorem zeroPowerText : NumberText ['0', 'E', '0'] 0 [] := by
  have number := @powerText ['0'] [] zeroWhole (by simp) ['0'] _ (.nonnegative zeroWhole)
  have nothing (exponent : Int) : (ofDigits ['0'] [] exponent).value = 0 := zero_mul _
  rwa [nothing] at number

theorem pieceNumeral (canonical : Whole whole) (fractionDigits : ∀ c ∈ fraction, c.isDigit)
    (ends : EndsNumeral rest) : Piece (whole ++ point fraction)
      (some (.number (ofDigits whole fraction 0).toFloat)) rest :=
  .number (numeralText canonical fractionDigits ends) ((ofDigitsNearest whole fraction 0 _).mpr rfl)

theorem givesNumeral (canonical : Whole whole) (fractionDigits : ∀ c ∈ fraction, c.isDigit)
    (ends : EndsNumeral rest) : Gives (whole ++ point fraction ++ rest)
      [.number (ofDigits whole fraction 0).toFloat] rest :=
  givesPiece (pieceNumeral canonical fractionDigits ends)

end Calculator.Lexeme
