/-
This file proves that every calculation ends with a number or with one of two messages.
-/

import Calculator.Calculation
import Calculator.Proofs.Display.Numeral
import Calculator.Settings

namespace Calculator

/-- Exactly one of three statements holds. -/
def OneOfThree (first second third : Prop) : Prop :=
  (first ∧ ¬second ∧ ¬third) ∨ (¬first ∧ second ∧ ¬third) ∨ (¬first ∧ ¬second ∧ third)

/-- Three statements that exclude each other hold one at a time. -/
theorem OneOfThree.apart {first second third : Prop} (any : first ∨ second ∨ third)
    (firstSecond : first → ¬second) (firstThird : first → ¬third) (secondThird : second → ¬third) :
    OneOfThree first second third := by
  rcases any with one | two | three
  · exact .inl ⟨one, firstSecond one, firstThird one⟩
  · exact .inr (.inl ⟨fun one => firstSecond one two, two, secondThird two⟩)
  · exact .inr (.inr ⟨fun one => firstThird one three, fun two => secondThird two three, three⟩)

namespace Calculation

/-- A calculation without a value shows one of these texts. -/
def messages : List String :=
  ["Math Error", "Syntax Error"]

variable (text : String) (answer : Float) (settings : Settings)

/-- The expression has a finite value, and the display is its numeral. -/
def Valued : Prop :=
  ∃ x analysis, analyse text = .ok analysis ∧
    evaluate text answer settings.angle = .ok (x, analysis.steps) ∧ x.isFinite ∧
    calculateWithSteps text answer settings.angle settings.format =
      (⟨settings.format.render x, some x⟩, some analysis.steps) ∧
    settings.format.Numeral (settings.format.render x) ∧
    (∃ first ∈ (settings.format.render x).toList.head?, first.isDigit ∨ first = '-') ∧
    settings.format.render x ∉ messages

/-- The expression has steps but no value. -/
def Undefined : Prop :=
  ∃ cause analysis, analyse text = .ok analysis ∧
    evaluate text answer settings.angle = .error (.mathematical cause) ∧
    calculateWithSteps text answer settings.angle settings.format =
      (⟨"Math Error", none⟩, some analysis.steps)

/-- The text is not an expression. -/
def Malformed : Prop :=
  ∃ cause, analyse text = .error cause ∧
    evaluate text answer settings.angle = .error (.syntactic cause) ∧
    calculateWithSteps text answer settings.angle settings.format = (⟨"Syntax Error", none⟩, none)

variable {text answer settings}

/-- The first letter of a message tells it from a numeral. -/
theorem numeralNotMessage {mode : DisplayMode} {text : String} (numeral : mode.Numeral text) :
    text ∉ messages := by
  have mathematical := numeral.apart "Math Error" (by simp)
  have syntactic := numeral.apart "Syntax Error" (by simp)
  simp [messages, mathematical, syntactic]

/-- The value of an expression is displayed as a numeral. -/
theorem valued {analysis : Analysis} {x : Float} (analysed : analyse text = .ok analysis)
    (evaluated : analysis.expr.evaluate answer settings.angle = .ok x) :
    Valued text answer settings := by
  have finite := (Expr.evaluateOk.mp evaluated).2
  have numeral := settings.format.renderNumeral finite
  refine ⟨x, analysis, analysed, ?_, finite, ?_, numeral, numeral.starts,
    numeralNotMessage numeral⟩
  · simp only [evaluate, analysed, evaluated]
  · simp only [calculateWithSteps, analysed, evaluated]
    rfl

theorem undefined {analysis : Analysis} {cause : MathError} (analysed : analyse text = .ok analysis)
    (evaluated : analysis.expr.evaluate answer settings.angle = .error cause) :
    Undefined text answer settings := by
  refine ⟨cause, analysis, analysed, ?_, ?_⟩
  · simp only [evaluate, analysed, evaluated]
  · simp only [calculateWithSteps, analysed, evaluated]
    rfl

theorem malformed {cause : SyntaxError} (analysed : analyse text = .error cause) :
    Malformed text answer settings := by
  refine ⟨cause, analysed, ?_, ?_⟩
  · simp only [evaluate, analysed]
  · simp only [calculateWithSteps, analysed]
    rfl

/-- Every calculation has a value, is undefined or is malformed. -/
theorem outcomes (text : String) (answer : Float) (settings : Settings) :
    Valued text answer settings ∨ Undefined text answer settings ∨
      Malformed text answer settings := by
  cases analysed : analyse text with
  | error cause => exact .inr (.inr (malformed analysed))
  | ok analysis =>
      cases evaluated : analysis.expr.evaluate answer settings.angle with
      | error cause => exact .inr (.inl (undefined analysed evaluated))
      | ok x => exact .inl (valued analysed evaluated)

/-- The evaluation tells the three outcomes apart. -/
theorem oneOutcome (text : String) (answer : Float) (settings : Settings) :
    OneOfThree (Valued text answer settings) (Undefined text answer settings)
      (Malformed text answer settings) := by
  refine .apart (outcomes text answer settings) ?_ ?_ ?_
  · rintro ⟨_, _, _, value, _⟩ ⟨_, _, _, error, _⟩
    rw [value] at error
    cases error
  · rintro ⟨_, _, analysed, _⟩ ⟨_, refused, _⟩
    rw [analysed] at refused
    cases refused
  · rintro ⟨_, _, analysed, _⟩ ⟨_, refused, _⟩
    rw [analysed] at refused
    cases refused

/-- The outcome of a calculation is a shown value or a message without a value. -/
theorem outcomeShape (text : String) (answer : Float) (settings : Settings) :
    (∃ x : Float, x.isFinite ∧ calculate text answer settings.angle settings.format =
      ⟨settings.format.render x, some x⟩) ∨
    ∃ message ∈ messages,
      calculate text answer settings.angle settings.format = ⟨message, none⟩ := by
  rcases outcomes text answer settings with
    ⟨x, _, _, _, finite, calculated, _⟩ | ⟨_, _, _, _, calculated⟩ | ⟨_, _, _, calculated⟩
  · exact .inl ⟨x, finite, by rw [calculate, calculated]⟩
  · exact .inr ⟨"Math Error", by simp [messages], by rw [calculate, calculated]⟩
  · exact .inr ⟨"Syntax Error", by simp [messages], by rw [calculate, calculated]⟩

theorem displayPresent (text : String) (answer : Float) (settings : Settings) :
    (calculate text answer settings.angle settings.format).display ≠ "" := by
  rcases Calculation.outcomeShape text answer settings with
    ⟨x, finite, calculated⟩ | ⟨message, member, calculated⟩
  · rw [calculated]
    exact (settings.format.renderNumeral finite).apart "" (by simp)
  · rw [calculated]
    intro empty
    rw [show message = "" from empty] at member
    revert member
    decide

end Calculation

end Calculator
