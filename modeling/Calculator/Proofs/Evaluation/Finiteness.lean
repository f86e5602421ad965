/-
This file proves that only a factorial can give a value that is not finite.
-/

import Calculator.Evaluation
import Calculator.Proofs.Binary64.Closure
import Calculator.Proofs.Elementary
import Calculator.Proofs.Expr.Subtrees

namespace Calculator

/-- A result is a finite value, or an error that tells why there is no value. -/
def Settled : Except MathError Float → Prop
  | .ok x => x.isFinite
  | .error cause => cause ≠ .notFinite

/-- A settled result passes only finite values on. -/
theorem Settled.step {result : Except MathError Float} {next : Float → Except MathError Float}
    (steps : ∀ x : Float, x.isFinite → Settled (next x)) : Settled result →
    Settled (match result with
      | .ok x => next x
      | .error cause => .error cause) := by
  cases result with
  | ok x => exact steps x
  | error cause => exact id

theorem AngleFunction.ofQuartersSettled (f : AngleFunction) (quarters : Nat) :
    Settled (f.ofQuarters quarters) := by
  have sine (count : Nat) : (quarterSine count).isFinite := by
    rw [quarterSine]
    split <;> decide
  cases f with
  | sin | cos => exact sine _
  | tan =>
      rw [ofQuarters]
      split
      · exact show (0 : Float).isFinite by decide
      · exact fun same => nomatch same

section Operations

variable [elementary : Elementary] {x y : Float}

/-- The power of the platform may be anything, because a power that is not a number is refused. -/
theorem powerNumber {z : Float} (left : x.isFinite) (right : y.isFinite)
    (powered : power x y = .ok z) : z.isNaN = false := by
  simp only [power, Binary64.nanOfFinite left, Binary64.nanOfFinite right] at powered
  split at powered
  · cases powered
  · split at powered
    · cases powered
    · next number =>
      cases powered
      simpa using number

/-- No operation on finite numbers has a result that is not a number. -/
theorem Operator.computeNumber {op : Operator} {z : Float} (left : x.isFinite) (right : y.isFinite)
    (computed : op.compute x y = .ok z) : z.isNaN = false := by
  cases op with
  | add =>
      cases computed
      exact Binary64.addNumber left right
  | sub =>
      cases computed
      exact Binary64.subNumber left right
  | mul =>
      cases computed
      exact Binary64.mulNumber left right
  | div =>
      rw [compute] at computed
      split at computed
      · cases computed
      · next nonzero =>
        cases computed
        exact Binary64.divNumber left right nonzero
  | pow => exact powerNumber left right computed

theorem powerCause {cause : MathError} (refused : power x y = .error cause) :
    cause ≠ .notFinite := by
  simp only [power] at refused
  split at refused
  · cases refused
    decide
  · split at refused <;> cases refused
    decide

theorem Operator.computeCause {op : Operator} {cause : MathError}
    (refused : op.compute x y = .error cause) : cause ≠ .notFinite := by
  cases op with
  | add | sub | mul => cases refused
  | div =>
      rw [compute] at refused
      split at refused <;> cases refused
      decide
  | pow => exact powerCause refused

/-- An infinite result of finite numbers is an overflow. -/
theorem Operator.applySettled (op : Operator) (left : x.isFinite) (right : y.isFinite) :
    Settled (op.apply x y) := by
  rw [apply]
  cases computed : op.compute x y with
  | error cause => exact computeCause computed
  | ok z =>
      have number := computeNumber left right computed
      simp only [left, right, Bool.and_true]
      split
      · exact fun same => nomatch same
      · next inside => exact Binary64.finiteIffNumber.mpr ⟨number, by simpa using inside⟩

theorem AngleFunction.convertedSettled (f : AngleFunction) : Settled (f.converted x) := by
  simp only [converted]
  split
  · next finite => exact finite
  · exact fun same => nomatch same

/-- The functions of an angle check their own results. -/
theorem AngleFunction.applySettled (f : AngleFunction) (unit : AngleUnit) :
    Settled (f.apply unit x) := by
  rw [apply]
  split
  · split
    · exact convertedSettled f
    · simp only
      split
      · exact ofQuartersSettled f _
      · exact convertedSettled f
  · exact fun same => nomatch same

theorem NamedFunction.applySettled (logarithms : elementary.FiniteLogarithms) (f : NamedFunction)
    (unit : AngleUnit) (finite : x.isFinite) : Settled (f.apply unit x) := by
  cases f with
  | angle f => exact f.applySettled unit
  | log =>
      rw [apply]
      split
      · exact fun same => nomatch same
      · next above => exact logarithms.log10 x finite (Binary64.positiveOfNotLe finite above)
  | ln =>
      rw [apply]
      split
      · exact fun same => nomatch same
      · next above => exact logarithms.ln x finite (Binary64.positiveOfNotLe finite above)
  | sqrt =>
      rw [apply]
      split
      · exact fun same => nomatch same
      · next notBelow => exact Binary64.sqrtFinite finite notBelow
  | abs => exact Binary64.absFinite finite

end Operations

namespace Expr

/-- No subtree is a factorial, and every number among the subtrees is one. -/
structure Ordinary (expr : Expr) : Prop where
  noFactorial : ∀ operand, .factorial operand ∉ expr.subtrees
  numbers : ∀ x, .number x ∈ expr.subtrees → x.isNaN = false

theorem Ordinary.subtree {expr tree : Expr} (ordinary : expr.Ordinary)
    (member : tree ∈ expr.subtrees) : tree.Ordinary where
  noFactorial operand inner := ordinary.noFactorial operand (subtreesTrans member inner)
  numbers x inner := ordinary.numbers x (subtreesTrans member inner)

section Trees

variable [elementary : Elementary] {expr : Expr} {answer : Float}

/-- The result of a tree is settled if the results of its operands are. -/
theorem Ordinary.computeSettled (logarithms : elementary.FiniteLogarithms)
    (finite : answer.isFinite) (unit : AngleUnit) (ordinary : expr.Ordinary) :
    Settled (expr.compute answer unit) := by
  induction expr with
  | number x =>
      have number := ordinary.numbers x (memSubtrees _)
      rw [compute]
      split
      · exact fun same => nomatch same
      · next inside => exact Binary64.finiteIffNumber.mpr ⟨number, by simpa using inside⟩
  | answer => exact finite
  | negate operand inductionHypothesis =>
      have inner := inductionHypothesis (ordinary.subtree (by simp [subtrees, memSubtrees]))
      exact .step (fun x finite => Binary64.finiteNeg finite) inner
  | binary op left right leftHypothesis rightHypothesis =>
      have first := leftHypothesis (ordinary.subtree (by simp [subtrees, memSubtrees]))
      have second := rightHypothesis (ordinary.subtree (by simp [subtrees, memSubtrees]))
      exact .step (fun x finiteLeft =>
        .step (fun y finiteRight => op.applySettled finiteLeft finiteRight) second) first
  | call f argument inductionHypothesis =>
      have inner := inductionHypothesis (ordinary.subtree (by simp [subtrees, memSubtrees]))
      exact .step (fun x finite => f.applySettled logarithms unit finite) inner
  | factorial operand => exact absurd (memSubtrees _) (ordinary.noFactorial operand)
  | group inside inductionHypothesis =>
      exact inductionHypothesis (ordinary.subtree (by simp [subtrees, memSubtrees]))

/-- Without a factorial, every subtree of a tree of numbers that has a value has a finite one, and a
tree without a value is a division by zero, an overflow or outside a domain. -/
theorem finiteWithoutFactorial (logarithms : elementary.FiniteLogarithms)
    (finite : answer.isFinite) (unit : AngleUnit) (ordinary : expr.Ordinary) :
    (∀ tree ∈ expr.subtrees, ∀ x, tree.compute answer unit = .ok x → x.isFinite) ∧
      ((∃ x : Float, x.isFinite ∧ expr.evaluate answer unit = .ok x) ∨
        expr.evaluate answer unit = .error .divisionByZero ∨
        (∃ fault, expr.evaluate answer unit = .error (.outOfDomain fault)) ∨
        expr.evaluate answer unit = .error .overflow) := by
  constructor
  · intro tree member x computed
    have settled := (ordinary.subtree member).computeSettled logarithms finite unit
    rwa [computed] at settled
  · have settled := ordinary.computeSettled logarithms finite unit
    rw [evaluate]
    cases computed : expr.compute answer unit with
    | ok x =>
        rw [computed] at settled
        exact .inl ⟨x, settled, if_pos settled⟩
    | error cause =>
        rw [computed] at settled
        cases cause with
        | divisionByZero => exact .inr (.inl rfl)
        | outOfDomain fault => exact .inr (.inr (.inl ⟨fault, rfl⟩))
        | overflow => exact .inr (.inr (.inr rfl))
        | notFinite => exact absurd rfl settled

end Trees

/-- An infinite power is an overflow, also inside a sum whose other term has a value. -/
theorem finiteWithoutFactorialPower :
    letI := Elementary.sample
    let logarithm : Expr := .call .log .answer
    let tree : Expr := .binary .add logarithm (.group (.binary .pow (.number 10) (.number 400)))
    tree.Ordinary ∧ logarithm.compute 1000 .degree = .ok 3 ∧ (3 : Float).isFinite ∧
      tree.evaluate 1000 .degree = .error .overflow := by
  let _ := Elementary.sample
  intro logarithm tree
  have ordinary : tree.Ordinary := by
    constructor
    · simp [tree, logarithm, subtrees]
    · intro x member
      have operands : x = 10 ∨ x = 400 := by simpa [tree, logarithm, subtrees] using member
      rcases operands with rfl | rfl <;> decide
  have computed : logarithm.compute 1000 .degree = .ok 3 := rfl
  have answered : (1000 : Float).isFinite := by decide
  obtain ⟨values, _⟩ :=
    finiteWithoutFactorial Elementary.sampleLogarithms answered .degree ordinary
  exact ⟨ordinary, computed, values logarithm (by simp [tree, logarithm, subtrees]) 3 computed, rfl⟩

end Expr

end Calculator
