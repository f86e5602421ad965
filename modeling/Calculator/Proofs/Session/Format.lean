/-
This file proves that the format key changes only what a session displays.
-/

import Calculator.Proofs.Session.Run
import Mathlib.Dynamics.PeriodicPts.Defs

namespace Calculator

theorem DisplayMode.otherOther (mode : DisplayMode) : mode.other.other = mode := by
  cases mode <;> rfl

/-- The display mode has no part in the result of a calculation. -/
theorem Calculation.resultShown (text : String) (answer : Float) (unit : AngleUnit) :
    ∃ result, ∀ mode, calculate text answer unit mode = .ofResult mode result := by
  cases analysed : analyse text with
  | error cause =>
      refine ⟨.error (.syntactic cause), fun mode => ?_⟩
      simp only [calculate, calculateWithSteps, analysed]
  | ok analysis =>
      refine ⟨(analysis.expr.evaluate answer unit).mapError Error.mathematical, fun mode => ?_⟩
      simp only [calculate, calculateWithSteps, analysed]

namespace Session

def Action.isToggle : Action → Bool
  | .toggleFormat => true
  | _ => false

def toggles (actions : List Action) : Nat :=
  actions.countP Action.isToggle

def withoutToggles (actions : List Action) : List Action :=
  actions.filter fun action => !action.isToggle

/-- Two sessions agree on everything but the text of a displayed result and its format. -/
structure SameButDisplay (session other : Session) : Prop where
  expression : session.expression = other.expression
  answer : session.answer = other.answer
  angle : session.settings.angle = other.settings.angle
  succeeded : session.succeeded = other.succeeded
  empty : session.result = "" ↔ other.result = ""

namespace SameButDisplay

variable {session other last : Session}

theorem refl (session : Session) : SameButDisplay session session :=
  ⟨rfl, rfl, rfl, rfl, .rfl⟩

theorem symm (same : SameButDisplay session other) : SameButDisplay other session :=
  ⟨same.expression.symm, same.answer.symm, same.angle.symm, same.succeeded.symm, same.empty.symm⟩

theorem trans (same : SameButDisplay session other) (next : SameButDisplay other last) :
    SameButDisplay session last :=
  ⟨same.expression.trans next.expression, same.answer.trans next.answer,
    same.angle.trans next.angle, same.succeeded.trans next.succeeded, same.empty.trans next.empty⟩

end SameButDisplay

variable {session : Session}

section Toggle

theorem Consistent.shown (consistent : session.Consistent) (succeeded : session.succeeded = true) :
    session.ShowsAnswer := by
  rcases consistent.shows with ⟨_, failed⟩ | ⟨_, failed⟩ | shown
  · rw [succeeded] at failed
    cases failed
  · rw [succeeded] at failed
    cases failed
  · exact shown

theorem toggleFormatFailed (failed : session.succeeded = false) :
    session.toggleFormat.result = session.result := by
  simp only [toggleFormat, failed, Bool.false_eq_true, if_false]

theorem toggleFormatSame (consistent : session.Consistent) :
    SameButDisplay session.toggleFormat session := by
  refine ⟨rfl, rfl, rfl, rfl, ?_⟩
  cases succeeded : session.succeeded with
  | true =>
      have toggled := (toggleFormatConsistent consistent).shown succeeded
      exact iff_of_false toggled.2.2.1 (consistent.shown succeeded).2.2.1
  | false => rw [toggleFormatFailed succeeded]

/-- A shown answer depends only on the answer and the format. -/
theorem toggleFormatTwice (consistent : session.Consistent) :
    session.toggleFormat.toggleFormat = session := by
  have format := session.settings.format.otherOther
  cases succeeded : session.succeeded with
  | true =>
      have shown := (consistent.shown succeeded).2.1
      simp only [toggleFormat, succeeded, if_true, format, ← shown]
      rw [← succeeded]
  | false =>
      simp only [toggleFormat, succeeded, Bool.false_eq_true, if_false, format]
      rw [← succeeded]

/-- A text is entered alike with every format, because a toggle never clears a result. -/
theorem enterToggled (consistent : session.Consistent) (text : String) :
    session.toggleFormat.enter text = (session.enter text).toggleFormat := by
  have empty : session.toggleFormat.result.isEmpty = session.result.isEmpty := by
    rw [Bool.eq_iff_iff, String.isEmpty_iff, String.isEmpty_iff]
    exact (toggleFormatSame consistent).empty
  simp only [enter, empty]
  split <;> rfl

/-- An execution shows its own result, and the result is the same in every format. -/
theorem executeToggled (session : Session) :
    session.toggleFormat.execute.1 = session.execute.1.toggleFormat := by
  obtain ⟨result, shown⟩ :=
    Calculation.resultShown session.expression session.answer session.settings.angle
  simp only [execute, toggleFormat, shown]
  split
  · rfl
  · cases result <;> rfl

/-- The format key commutes with every key. -/
theorem performToggled (consistent : session.Consistent) (action : Action) :
    (session.toggleFormat.perform action).1 = (session.perform action).1.toggleFormat := by
  cases action with
  | enter text => exact enterToggled consistent text
  | execute => exact executeToggled session
  | delete | clear | toggleFormat | setAngle _ => rfl

end Toggle

section Run

theorem runToggled (consistent : session.Consistent) (actions : List Action) :
    (session.toggleFormat.run actions).1 = (session.run actions).1.toggleFormat := by
  induction actions generalizing session with
  | nil => rfl
  | cons action actions inductionHypothesis =>
      have kept := performConsistent consistent action
      show ((session.toggleFormat.perform action).1.run actions).1 = _
      rw [performToggled consistent action]
      exact inductionHypothesis kept

/-- The toggles of a run may be made after its other actions. -/
theorem runWithoutToggles (consistent : session.Consistent) (actions : List Action) :
    (session.run actions).1 =
      toggleFormat^[toggles actions] (session.run (withoutToggles actions)).1 := by
  induction actions generalizing session with
  | nil => rfl
  | cons action actions inductionHypothesis =>
      have later := inductionHypothesis (performConsistent consistent action)
      cases action with
      | toggleFormat =>
          have more : toggles (.toggleFormat :: actions) = toggles actions + 1 :=
            List.countP_cons_of_pos rfl
          rw [more, Function.iterate_succ_apply']
          show (session.toggleFormat.run actions).1 =
            (toggleFormat^[toggles actions] (session.run (withoutToggles actions)).1).toggleFormat
          rw [runToggled consistent, inductionHypothesis consistent]
      | enter _ | delete | clear | execute | setAngle _ => exact later

/-- Only the parity of a count of toggles matters. -/
theorem toggleFormatParity (consistent : session.Consistent) (count : Nat) :
    toggleFormat^[count] session = toggleFormat^[count % 2] session := by
  have periodic : Function.IsPeriodicPt toggleFormat 2 session := toggleFormatTwice consistent
  exact (periodic.iterate_mod_apply count).symm

theorem toggleFormatCount (consistent : session.Consistent) (count : Nat) :
    SameButDisplay (toggleFormat^[count] session) session := by
  rw [toggleFormatParity consistent]
  rcases Nat.mod_two_eq_zero_or_one count with even | odd
  · rw [even]
    exact .refl session
  · rw [odd]
    exact toggleFormatSame consistent

/-- In every reached session the format key takes the other format, commutes with every key and
undoes itself. Two runs with the same other actions differ at most in the display, and they agree on
it if their counts of toggles have the same parity. -/
theorem toggleFormatInvisible (settings : Settings) (first : Float) (finite : first.isFinite)
    (actions : List Action) :
    let start : Session := { answer := first, settings := settings }
    let reached := (start.run actions).1
    reached.toggleFormat.settings.format = reached.settings.format.other ∧
      (∀ action,
        (reached.perform action).1.toggleFormat = (reached.toggleFormat.perform action).1) ∧
      reached.toggleFormat.toggleFormat = reached ∧
      ∀ others, withoutToggles others = withoutToggles actions →
        SameButDisplay (start.run others).1 reached ∧
          (toggles others % 2 = toggles actions % 2 → (start.run others).1 = reached) := by
  intro start reached
  have initial : start.Consistent := ⟨finite, .inl ⟨rfl, rfl⟩⟩
  have consistent : reached.Consistent := runConsistent initial actions
  refine ⟨rfl, fun action => (performToggled consistent action).symm,
    toggleFormatTwice consistent, fun others same => ?_⟩
  have untoggled := runConsistent initial (withoutToggles actions)
  have reachedUntoggled := runWithoutToggles initial actions
  have otherUntoggled := runWithoutToggles initial others
  rw [same] at otherUntoggled
  constructor
  · rw [otherUntoggled, show reached = _ from reachedUntoggled]
    exact (toggleFormatCount untoggled _).trans (toggleFormatCount untoggled _).symm
  · intro parity
    rw [otherUntoggled, show reached = _ from reachedUntoggled, toggleFormatParity untoggled,
      parity, ← toggleFormatParity untoggled]

/-- A third is displayed alike with the format key before the execution and after it. -/
theorem toggleFormatInvisibleThird :
    let before : List Action := [.enter "1÷3", .toggleFormat, .execute]
    let after : List Action := [.enter "1÷3", .execute, .toggleFormat]
    (0 : Float).isFinite ∧ withoutToggles before = withoutToggles after ∧
      (({} : Session).run before).1 = (({} : Session).run after).1 ∧
      (({} : Session).run after).1.result = "3.33333e-1" := by
  intro before after
  have finite : (0 : Float).isFinite := by decide
  have same : withoutToggles before = withoutToggles after := rfl
  obtain ⟨_, _, _, runs⟩ := toggleFormatInvisible {} 0 finite after
  exact ⟨finite, same, (runs before same).2 rfl, by decide +kernel⟩

end Run

end Session

end Calculator
