/-
This file bounds the calls that the evaluation and the display of a tree nest.
-/

import Calculator.Evaluation
import Calculator.Proofs.Grammar.Soundness

namespace Calculator

namespace Expr

def size : Expr → Nat
  | .number _ | .answer => 1
  | .negate operand | .factorial operand => operand.size + 1
  | .binary _ left right => left.size + right.size + 1
  | .call _ argument => argument.size + 1
  | .group inside => inside.size + 1

/-- A walk over the tree has this many calls open at its deepest leaf. -/
def height : Expr → Nat
  | .number _ | .answer => 1
  | .negate operand | .factorial operand => operand.height + 1
  | .binary _ left right => max left.height right.height + 1
  | .call _ argument => argument.height + 1
  | .group inside => inside.height + 1

theorem heightLeSize (expr : Expr) : expr.height ≤ expr.size := by
  induction expr with
  | number _ | answer => exact Nat.le_refl _
  | negate _ inductionHypothesis | factorial _ inductionHypothesis
  | call _ _ inductionHypothesis | group _ inductionHypothesis =>
      exact Nat.succ_le_succ inductionHypothesis
  | binary _ left right leftHypothesis rightHypothesis =>
      simp only [height, size]
      omega

section Evaluation

variable [Elementary]

/-- The evaluation gives up where it would open more calls than the limit allows. -/
def computeWithin (answer : Float) (unit : AngleUnit) :
    Nat → Expr → Option (Except MathError Float)
  | 0, _ => none
  | _ + 1, .number x => some (if x.isInf then .error .overflow else .ok x)
  | _ + 1, .answer => some (.ok answer)
  | limit + 1, .negate operand =>
    match computeWithin answer unit limit operand with
    | some (.ok x) => some (.ok (-x))
    | other => other
  | limit + 1, .binary op left right =>
    match computeWithin answer unit limit left with
    | some (.ok x) =>
      match computeWithin answer unit limit right with
      | some (.ok y) => some (op.apply x y)
      | other => other
    | other => other
  | limit + 1, .call f argument =>
    match computeWithin answer unit limit argument with
    | some (.ok x) => some (f.apply unit x)
    | other => other
  | limit + 1, .factorial operand =>
    match computeWithin answer unit limit operand with
    | some (.ok x) => some (Calculator.factorial x)
    | other => other
  | limit + 1, .group inside => computeWithin answer unit limit inside

/-- A limit of at least the height of the tree changes nothing. -/
theorem computeWithinHeight {expr : Expr} {limit : Nat} (enough : expr.height ≤ limit)
    (answer : Float) (unit : AngleUnit) :
    computeWithin answer unit limit expr = some (expr.compute answer unit) := by
  induction limit generalizing expr with
  | zero => cases expr <;> exact absurd enough (Nat.not_succ_le_zero _)
  | succ limit inductionHypothesis =>
      cases expr with
      | number _ | answer => rfl
      | negate operand | factorial operand | call f operand =>
          rw [computeWithin, compute, inductionHypothesis (Nat.le_of_succ_le_succ enough)]
          cases operand.compute answer unit <;> rfl
      | group inside => exact inductionHypothesis (Nat.le_of_succ_le_succ enough)
      | binary op left right =>
          obtain ⟨first, second⟩ := Nat.max_le.mp (Nat.le_of_succ_le_succ enough)
          rw [computeWithin, compute, inductionHypothesis first, inductionHypothesis second]
          cases left.compute answer unit with
          | error cause => rfl
          | ok x => cases right.compute answer unit <;> rfl

end Evaluation

/-- The display gives up where it would open more calls than the limit allows. -/
def spellingWithin : Nat → Expr → Option (List Char)
  | 0, _ => none
  | _ + 1, .number x => some (spellNumber x)
  | _ + 1, .answer => some "Ans".toList
  | limit + 1, .negate operand =>
    (spellingWithin limit operand).map fun text => '(' :: '-' :: text ++ [')']
  | limit + 1, .binary op left right =>
    (spellingWithin limit left).bind fun first =>
      (spellingWithin limit right).map fun second =>
        '(' :: first ++ ' ' :: op.symbol :: ' ' :: second ++ [')']
  | limit + 1, .call f argument =>
    (spellingWithin limit argument).map fun text => f.name.toList ++ '[' :: text ++ [']']
  | limit + 1, .factorial operand =>
    (spellingWithin limit operand).map fun text => '(' :: text ++ ['!', ')']
  | limit + 1, .group inside => spellingWithin limit inside

/-- The display opens exactly as many calls as the tree is high. -/
theorem spellingWithinEq (limit : Nat) (expr : Expr) :
    spellingWithin limit expr = if expr.height ≤ limit then some expr.spelling else none := by
  induction limit generalizing expr with
  | zero => cases expr <;> rfl
  | succ limit inductionHypothesis =>
      cases expr with
      | number _ | answer => simp [spellingWithin, spelling, height]
      | group inside => simp [spellingWithin, spelling, height, inductionHypothesis]
      | negate operand | factorial operand | call f operand =>
          simp only [spellingWithin, spelling, height, inductionHypothesis,
            Nat.add_le_add_iff_right]
          split <;> rfl
      | binary op left right =>
          simp only [spellingWithin, spelling, height, inductionHypothesis,
            Nat.add_le_add_iff_right, Nat.max_le]
          by_cases first : left.height ≤ limit <;> by_cases second : right.height ≤ limit <;>
            simp [first, second]

end Expr

/-- Every part of a tree has a token of its own. -/
theorem Derives.size {layer : Layer} {tokens : List Token} {expr : Expr} {nesting : Nat}
    (derives : Derives layer tokens expr nesting) : expr.size ≤ tokens.length := by
  induction derives with
  | number _ | pi | answer => exact Nat.le_refl _
  | loosen _ inductionHypothesis => exact inductionHypothesis
  | group _ inductionHypothesis | call _ _ inductionHypothesis | factorial _ inductionHypothesis
  | negate _ inductionHypothesis | keep _ inductionHypothesis =>
      simp only [Expr.size, List.length_cons, List.length_append, List.length_nil]
      omega
  | binary op _ _ leftHypothesis rightHypothesis =>
      simp only [Expr.size, List.length_cons, List.length_append]
      omega

end Calculator
