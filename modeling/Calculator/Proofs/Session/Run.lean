/-
This file proves what every run of a session keeps.
-/

import Calculator.Proofs.Calculation.Outcome
import Calculator.Proofs.Text.Trim
import Calculator.Session

namespace Calculator

namespace Session

open Calculation (messages numeralNotMessage outcomeShape)

inductive Action where
  | enter (text : String)
  | delete
  | clear
  | execute
  | toggleFormat
  | setAngle (unit : AngleUnit)

/-- Only an execution has an outcome. -/
def perform (session : Session) : Action → Session × Option Outcome
  | .enter text => (session.enter text, none)
  | .delete => (session.delete, none)
  | .clear => (session.clear, none)
  | .execute => session.execute
  | .toggleFormat => (session.toggleFormat, none)
  | .setAngle unit => (session.setAngle unit, none)

/-- The outcomes of a run come in the order of its executions. -/
def run (session : Session) : List Action → Session × List Outcome
  | [] => (session, [])
  | action :: actions =>
    let next := session.perform action
    let last := next.1.run actions
    (last.1, next.2.toList ++ last.2)

/-- This is the answer of the last success, or the first answer without one. -/
def lastAnswer (first : Float) (outcomes : List Outcome) : Float :=
  (outcomes.filterMap Outcome.answer).getLast?.getD first

def ShowsNothing (session : Session) : Prop :=
  session.result = "" ∧ session.succeeded = false

def ShowsMessage (session : Session) : Prop :=
  session.result ∈ messages ∧ session.succeeded = false

/-- The result shows the answer in the current format. -/
def ShowsAnswer (session : Session) : Prop :=
  session.succeeded = true ∧ session.result = session.settings.format.render session.answer ∧
    session.result ≠ "" ∧ session.result ∉ messages

/-- The answer is finite, and the result agrees with it and with the flag. -/
structure Consistent (session : Session) : Prop where
  finite : session.answer.isFinite
  shows : session.ShowsNothing ∨ session.ShowsMessage ∨ session.ShowsAnswer

variable {session : Session}

/-- The result and the flag tell what a session shows. -/
theorem Consistent.oneDisplay (consistent : session.Consistent) :
    OneOfThree session.ShowsNothing session.ShowsMessage session.ShowsAnswer := by
  refine .apart consistent.shows ?_ ?_ ?_
  · rintro ⟨empty, _⟩ ⟨member, _⟩
    rw [empty] at member
    revert member
    decide
  · rintro ⟨_, failed⟩ ⟨succeeded, _⟩
    rw [succeeded] at failed
    cases failed
  · rintro ⟨_, failed⟩ ⟨succeeded, _⟩
    rw [succeeded] at failed
    cases failed

section Step

/-- A shown finite answer is a numeral of the current format. -/
theorem showsAnswer (finite : session.answer.isFinite) (succeeded : session.succeeded = true)
    (result : session.result = session.settings.format.render session.answer) :
    session.ShowsAnswer := by
  have numeral := session.settings.format.renderNumeral finite
  rw [← result] at numeral
  exact ⟨succeeded, result, numeral.apart "" (by simp), numeralNotMessage numeral⟩

theorem clearResultConsistent (finite : session.answer.isFinite) :
    session.clearResult.Consistent :=
  ⟨finite, .inl ⟨rfl, rfl⟩⟩

theorem enterConsistent (consistent : session.Consistent) (text : String) :
    (session.enter text).Consistent := by
  rw [enter]
  split
  · exact ⟨consistent.finite, consistent.shows⟩
  · exact clearResultConsistent consistent.finite

theorem toggleFormatConsistent (consistent : session.Consistent) :
    session.toggleFormat.Consistent := by
  refine ⟨consistent.finite, ?_⟩
  cases succeeded : session.succeeded with
  | true =>
      refine .inr (.inr (showsAnswer consistent.finite succeeded ?_))
      simp only [toggleFormat, succeeded, if_true]
  | false =>
      have same : session.toggleFormat.result = session.result := by
        simp only [toggleFormat, succeeded, Bool.false_eq_true, if_false]
      rcases consistent.shows with ⟨empty, _⟩ | ⟨member, _⟩ | ⟨shown, _⟩
      · exact .inl ⟨same.trans empty, succeeded⟩
      · exact .inr (.inl ⟨by rwa [same], succeeded⟩)
      · rw [shown] at succeeded
        cases succeeded

/-- A success is shown with its value, and a failure with its message. -/
theorem executeConsistent (consistent : session.Consistent) : session.execute.1.Consistent := by
  rw [execute]
  split
  · exact consistent
  · rcases outcomeShape session.expression session.answer session.settings with
      ⟨x, finite, calculated⟩ | ⟨message, member, calculated⟩
    · simp only [calculated]
      exact ⟨finite, .inr (.inr (showsAnswer finite rfl rfl))⟩
    · simp only [calculated]
      exact ⟨consistent.finite, .inr (.inl ⟨member, rfl⟩)⟩

/-- Every action keeps a session consistent. -/
theorem performConsistent (consistent : session.Consistent) (action : Action) :
    (session.perform action).1.Consistent := by
  cases action with
  | enter text => exact enterConsistent consistent text
  | delete | clear => exact clearResultConsistent consistent.finite
  | execute => exact executeConsistent consistent
  | toggleFormat => exact toggleFormatConsistent consistent
  | setAngle unit => exact ⟨consistent.finite, consistent.shows⟩

/-- Only a success changes the answer. -/
theorem performAnswer (session : Session) (action : Action) :
    (session.perform action).1.answer =
      lastAnswer session.answer (session.perform action).2.toList := by
  cases action with
  | enter text =>
      show (session.enter text).answer = session.answer
      rw [enter]
      split <;> rfl
  | delete | clear | toggleFormat | setAngle _ => rfl
  | execute =>
      show session.execute.1.answer = lastAnswer session.answer session.execute.2.toList
      rw [execute]
      split
      · rfl
      · rcases outcomeShape session.expression session.answer session.settings with
          ⟨x, _, calculated⟩ | ⟨message, _, calculated⟩ <;>
        · simp only [calculated]
          rfl

/-- A failure changes only what is shown. -/
theorem executeFailed {outcome : Outcome} (executed : session.execute.2 = some outcome)
    (failed : outcome.answer = none) :
    session.execute.1.expression = session.expression ∧
      session.execute.1.answer = session.answer ∧
      session.execute.1.settings = session.settings := by
  rw [execute] at executed ⊢
  split at executed
  · cases executed
  · next present =>
    cases executed
    rw [if_neg present]
    exact ⟨rfl, by simp only [failed, Option.getD_none], rfl⟩

theorem executeBlank (blank : ∀ c ∈ session.expression.toList, Text.isBlank c) :
    session.execute = (session, none) := by
  rw [execute, Text.trimEmpty.mpr blank]
  rfl

end Step

section Run

theorem lastAnswerAppend (first : Float) (before after : List Outcome) :
    lastAnswer first (before ++ after) = lastAnswer (lastAnswer first before) after := by
  rw [lastAnswer, lastAnswer, lastAnswer, List.filterMap_append, List.getLast?_append]
  cases (after.filterMap Outcome.answer).getLast? <;> rfl

theorem runConsistent (consistent : session.Consistent) (actions : List Action) :
    (session.run actions).1.Consistent := by
  induction actions generalizing session with
  | nil => exact consistent
  | cons action actions inductionHypothesis =>
      exact inductionHypothesis (performConsistent consistent action)

theorem runAnswer (session : Session) (actions : List Action) :
    (session.run actions).1.answer = lastAnswer session.answer (session.run actions).2 := by
  induction actions generalizing session with
  | nil => rfl
  | cons action actions inductionHypothesis =>
      show ((session.perform action).1.run actions).1.answer =
        lastAnswer session.answer ((session.perform action).2.toList ++ _)
      rw [lastAnswerAppend, ← performAnswer, inductionHypothesis]

/-- In every reached session the answer is the value of the last success, and the session shows
exactly one of nothing, a message and the answer in the current format. A failed execution keeps the
expression, the answer and the settings, and a blank expression keeps everything. -/
theorem runShows (settings : Settings) (first : Float) (finite : first.isFinite)
    (actions : List Action) :
    let reached := ({ answer := first, settings := settings } : Session).run actions
    reached.1.answer.isFinite ∧ reached.1.answer = lastAnswer first reached.2 ∧
      OneOfThree reached.1.ShowsNothing reached.1.ShowsMessage reached.1.ShowsAnswer ∧
      (∀ outcome, reached.1.execute.2 = some outcome → outcome.answer = none →
        reached.1.execute.1.expression = reached.1.expression ∧
        reached.1.execute.1.answer = reached.1.answer ∧
        reached.1.execute.1.settings = reached.1.settings) ∧
      ((∀ c ∈ reached.1.expression.toList, Text.isBlank c) →
        reached.1.execute = (reached.1, none)) := by
  intro reached
  have initial : ({ answer := first, settings := settings } : Session).Consistent :=
    ⟨finite, .inl ⟨rfl, rfl⟩⟩
  have consistent := runConsistent initial actions
  exact ⟨consistent.finite, runAnswer _ actions, consistent.oneDisplay,
    fun outcome => executeFailed, executeBlank⟩

/-- After an error the other format does not show the answer before it. -/
theorem runShowsError :
    let reached := ({} : Session).run [.enter "1+1", .execute, .enter "÷0", .execute, .toggleFormat]
    reached.1.answer = 2 ∧ reached.1.ShowsMessage := by
  have outcomes : lastAnswer 0 (({} : Session).run
      [.enter "1+1", .execute, .enter "÷0", .execute, .toggleFormat]).2 = 2 := by decide +kernel
  have failed : (({} : Session).run
      [.enter "1+1", .execute, .enter "÷0", .execute, .toggleFormat]).1.succeeded = false ∧
    (({} : Session).run
      [.enter "1+1", .execute, .enter "÷0", .execute, .toggleFormat]).1.result ≠ "" := by
    decide +kernel
  obtain ⟨_, answer, display, _⟩ := runShows {} 0 (by decide)
    [.enter "1+1", .execute, .enter "÷0", .execute, .toggleFormat]
  refine ⟨answer.trans outcomes, ?_⟩
  rcases display with ⟨⟨empty, _⟩, _⟩ | ⟨_, message, _⟩ | ⟨_, _, shown, _⟩
  · exact absurd empty failed.2
  · exact message
  · rw [failed.1] at shown
    cases shown

end Run

end Session

end Calculator
