/-
This file encloses every operation of a tree in its own parentheses.
-/

import Calculator.Evaluation
import Calculator.Proofs.Grammar.Derivation
import Calculator.Proofs.Grammar.Juxtaposition

namespace Calculator

namespace Expr

/-- A group has the value of its inside, so it can be left out. -/
def withoutGroups : Expr → Expr
  | .number x => .number x
  | .answer => .answer
  | .negate operand => .negate operand.withoutGroups
  | .binary op left right => .binary op left.withoutGroups right.withoutGroups
  | .call f argument => .call f argument.withoutGroups
  | .factorial operand => .factorial operand.withoutGroups
  | .group inside => inside.withoutGroups

/-- Exactly the operations become groups. -/
def enclosed : Expr → Expr
  | .number x => .number x
  | .answer => .answer
  | .negate operand => .group (.negate operand.enclosed)
  | .binary op left right => .group (.binary op left.enclosed right.enclosed)
  | .call f argument => .call f argument.enclosed
  | .factorial operand => .group (.factorial operand.enclosed)
  | .group inside => inside.enclosed

/-- These are the tokens of the enclosed tree. -/
def enclosedTokens : Expr → List Token
  | .number x => [.number x]
  | .answer => [.answer]
  | .negate operand => .opening :: .operator .sub :: (operand.enclosedTokens ++ [.closing])
  | .binary op left right =>
    .opening :: (left.enclosedTokens ++ .operator op :: (right.enclosedTokens ++ [.closing]))
  | .call f argument => .function f :: .opening :: (argument.enclosedTokens ++ [.closing])
  | .factorial operand => .opening :: (operand.enclosedTokens ++ [.factorial, .closing])
  | .group inside => inside.enclosedTokens

theorem enclosedWithoutGroups (expr : Expr) : expr.enclosed.withoutGroups = expr.withoutGroups := by
  induction expr with
  | number _ | answer => rfl
  | negate operand inductionHypothesis | factorial operand inductionHypothesis
  | call f operand inductionHypothesis | group operand inductionHypothesis =>
      simp only [enclosed, withoutGroups, inductionHypothesis]
  | binary op left right leftHypothesis rightHypothesis =>
      simp only [enclosed, withoutGroups, leftHypothesis, rightHypothesis]

theorem computeWithoutGroups (answer : Float) (unit : AngleUnit) (expr : Expr) :
    expr.withoutGroups.compute answer unit = expr.compute answer unit := by
  induction expr with
  | number _ | answer => rfl
  | negate operand inductionHypothesis | factorial operand inductionHypothesis
  | call f operand inductionHypothesis | group operand inductionHypothesis =>
      simp only [withoutGroups, compute, inductionHypothesis]
  | binary op left right leftHypothesis rightHypothesis =>
      simp only [withoutGroups, compute, leftHypothesis, rightHypothesis]

/-- Two trees that differ only in their groups have the same value. -/
theorem evaluateWithoutGroups {first second : Expr}
    (same : first.withoutGroups = second.withoutGroups) (answer : Float) (unit : AngleUnit) :
    first.evaluate answer unit = second.evaluate answer unit := by
  rw [evaluate, evaluate, ← computeWithoutGroups, same, computeWithoutGroups]

/-- An enclosed tree is an operand of every operation. -/
theorem derivesEnclosed (expr : Expr) :
    ∃ nesting, Derives .primary expr.enclosedTokens expr.enclosed nesting := by
  induction expr with
  | number x => exact ⟨_, .number x⟩
  | answer => exact ⟨_, .answer⟩
  | negate operand inductionHypothesis =>
      obtain ⟨_, derives⟩ := inductionHypothesis
      exact ⟨_, ((derives.widen .signed (by decide)).negate.widen .sum (by decide)).group⟩
  | binary op left right leftHypothesis rightHypothesis =>
      obtain ⟨_, first⟩ := leftHypothesis
      obtain ⟨_, second⟩ := rightHypothesis
      have operation := (first.widen op.left (Nat.zero_le _)).binary op
        (second.widen op.right (Nat.zero_le _))
      have within : op.layer.rank ≤ Layer.sum.rank := by cases op <;> decide
      have group := (operation.widen .sum within).group
      rw [List.append_assoc] at group
      exact ⟨_, group⟩
  | call f argument inductionHypothesis =>
      obtain ⟨_, derives⟩ := inductionHypothesis
      exact ⟨_, (derives.widen .sum (by decide)).call f⟩
  | factorial operand inductionHypothesis =>
      obtain ⟨_, derives⟩ := inductionHypothesis
      have group := ((derives.widen .marked (by decide)).factorial.widen .sum (by decide)).group
      rw [List.append_assoc] at group
      exact ⟨_, group⟩
  | group inside inductionHypothesis => exact inductionHypothesis

end Expr

namespace Token

/-- Between the tokens of an enclosed tree no product is missing. -/
theorem withProductsEnclosed (expr : Expr) :
    withProducts expr.enclosedTokens = expr.enclosedTokens := by
  obtain ⟨_, derives⟩ := expr.derivesEnclosed
  exact derives.withProducts

end Token

end Calculator
