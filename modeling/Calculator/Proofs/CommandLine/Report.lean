/-
This file proves that the report of an expression agrees with its outcome.
-/

import Calculator.CommandLine.Report
import Calculator.Proofs.Calculation.Outcome

namespace Calculator

namespace Json

theorem layoutStarts (decimal : Decimal) : ∃ c ∈ (layout decimal).head?, c.isDigit := by
  obtain ⟨first, positional, digit⟩ := decimal.positionalStarts
  obtain ⟨lead, mantissa, leadDigit⟩ := decimal.mantissaStarts
  simp only [layout]
  split
  · split
    · exact ⟨first, List.mem_head?_append_of_mem_head? positional, digit⟩
    · exact ⟨first, positional, digit⟩
  · exact ⟨lead, List.mem_head?_append_of_mem_head? mantissa, leadDigit⟩

/-- Only a number that is not finite is written as null. -/
theorem writeNumberNull (x : Float) : writeNumber x = "null" ↔ x.isFinite = false := by
  rw [writeNumber]
  split
  · next finite =>
    simp only [finite, Bool.true_eq_false, iff_false]
    intro written
    obtain ⟨first, head, starts⟩ := DisplayMode.signedStarts (Binary64.negative x)
      (layoutStarts (if Binary64.significand x = 0 then ⟨0, 0⟩ else Decimal.shortest .even x.abs))
    have same := congrArg (fun text => text.toList.head?) written
    simp only [String.toList_ofList] at same
    rw [DisplayMode.signed, same] at head
    obtain rfl : 'n' = first := Option.some.inj (by simpa using head)
    revert starts
    decide
  · next notFinite => simpa using notFinite

end Json

namespace CommandLine

variable (text : String) (answer : Float) (settings : Settings)

/-- The exit code tells a numeral from a message. -/
theorem reportCode (json withSteps : Bool) :
    ((report settings text answer json withSteps).code = 0 ∧ settings.format.Numeral
        (calculate text answer settings.angle settings.format).display) ∨
    ((report settings text answer json withSteps).code = 1 ∧ ¬settings.format.Numeral
        (calculate text answer settings.angle settings.format).display) := by
  have code : (report settings text answer json withSteps).code =
      if (calculate text answer settings.angle settings.format).updatesAnswer then 0 else 1 := rfl
  rw [code]
  rcases Calculation.outcomeShape text answer settings with
    ⟨x, finite, calculated⟩ | ⟨message, member, calculated⟩
  · rw [calculated]
    exact .inl ⟨rfl, settings.format.renderNumeral finite⟩
  · rw [calculated]
    exact .inr ⟨rfl, fun numeral => Calculation.numeralNotMessage numeral member⟩

/-- The answer is written as null exactly if it is not updated. -/
theorem answerNull :
    (calculate text answer settings.angle settings.format).updatesAnswer = false ↔
      (calculate text answer settings.angle settings.format).writeAnswer = "null" := by
  rcases Calculation.outcomeShape text answer settings with
    ⟨x, finite, calculated⟩ | ⟨message, _, calculated⟩
  · have written : Json.writeNumber x ≠ "null" := by
      rw [Ne, Json.writeNumberNull, finite]
      decide
    rw [calculated]
    exact iff_of_false Bool.noConfusion written
  · rw [calculated]
    exact iff_of_true rfl rfl

theorem joinLast (lines : List String) (last : String) :
    String.join ((lines ++ [last]).map (· ++ "\n")) =
      String.join (lines.map (· ++ "\n")) ++ last ++ "\n" := by
  simp [String.join_append, String.append_assoc]

/-- The last line of a plain report is the display. -/
theorem plainReport (withSteps : Bool) : ∃ before,
    (report settings text answer false withSteps).output =
      before ++ (calculate text answer settings.angle settings.format).display ++ "\n" :=
  ⟨_, joinLast _ _⟩

/-- The only line of a report in JSON is an object. -/
theorem jsonReport (withSteps : Bool) :
    (report settings text answer true withSteps).output = Json.writeObject
      ([("affichage", Json.writeString
          (calculate text answer settings.angle settings.format).display),
        ("ans", (calculate text answer settings.angle settings.format).writeAnswer),
        ("maj_ans", Json.writeBoolean
          (calculate text answer settings.angle settings.format).updatesAnswer),
        ("reglages", settings.write)] ++
        (if withSteps then
          (calculateWithSteps text answer settings.angle settings.format).2 else none).toList.map
          fun steps => ("demarche", steps.write)) ++ "\n" := by
  rw [report, calculate]
  generalize calculateWithSteps text answer settings.angle settings.format = calculated
  exact joinLast [] _

/-- A calculation gives exactly one of a numeral with its value, the message for an expression
without a value and the message for a text that is no expression. Its display decides the exit code
of the report, and its answer is written as null exactly if the report says that it is not
updated. -/
theorem reportAgrees :
    let outcome := calculate text answer settings.angle settings.format
    let calculated := calculateWithSteps text answer settings.angle settings.format
    OneOfThree (Calculation.Valued text answer settings)
      (Calculation.Undefined text answer settings) (Calculation.Malformed text answer settings) ∧
    outcome = calculated.1 ∧
    (∀ json withSteps,
      ((report settings text answer json withSteps).code = 0 ∧
        settings.format.Numeral outcome.display) ∨
      ((report settings text answer json withSteps).code = 1 ∧
        ¬settings.format.Numeral outcome.display)) ∧
    (∀ withSteps, ∃ before, (report settings text answer false withSteps).output =
      before ++ outcome.display ++ "\n") ∧
    (∀ withSteps, (report settings text answer true withSteps).output = Json.writeObject
      ([("affichage", Json.writeString outcome.display), ("ans", outcome.writeAnswer),
        ("maj_ans", Json.writeBoolean outcome.updatesAnswer), ("reglages", settings.write)] ++
        (if withSteps then calculated.2 else none).toList.map fun steps =>
          ("demarche", steps.write)) ++ "\n") ∧
    (Json.writeBoolean outcome.updatesAnswer = "false" ↔ outcome.writeAnswer = "null") ∧
    (Json.writeBoolean outcome.updatesAnswer = "true" ↔ outcome.writeAnswer ≠ "null") := by
  intro outcome calculated
  refine ⟨Calculation.oneOutcome text answer settings, rfl, reportCode text answer settings,
    plainReport text answer settings, jsonReport text answer settings, ?_⟩
  rw [Ne, ← answerNull]
  cases outcome.updatesAnswer <;> decide

end CommandLine

end Calculator
