/-
This file holds the subtrees of a tree.
-/

import Calculator.Expr.Basic

namespace Calculator.Expr

/-- The subtrees come in the order of their evaluation, and a tree follows its operands. -/
def subtrees : Expr → List Expr
  | .number x => [.number x]
  | .answer => [.answer]
  | .negate operand => operand.subtrees ++ [.negate operand]
  | .binary op left right => left.subtrees ++ right.subtrees ++ [.binary op left right]
  | .call f argument => argument.subtrees ++ [.call f argument]
  | .factorial operand => operand.subtrees ++ [.factorial operand]
  | .group inside => inside.subtrees ++ [.group inside]

theorem memSubtrees (expr : Expr) : expr ∈ expr.subtrees := by
  cases expr <;> simp [subtrees]

/-- The subtrees of a subtree are subtrees. -/
theorem subtreesTrans {expr inner tree : Expr} (outer : tree ∈ expr.subtrees)
    (nested : inner ∈ tree.subtrees) : inner ∈ expr.subtrees := by
  induction expr with
  | number _ | answer =>
      rw [subtrees, List.mem_singleton] at outer
      rwa [outer] at nested
  | negate operand inductionHypothesis | call f operand inductionHypothesis
  | factorial operand inductionHypothesis | group operand inductionHypothesis =>
      rw [subtrees, List.mem_append, List.mem_singleton] at outer
      rcases outer with deeper | rfl
      · exact List.mem_append_left _ (inductionHypothesis deeper)
      · exact nested
  | binary op left right leftHypothesis rightHypothesis =>
      rw [subtrees, List.mem_append, List.mem_append, List.mem_singleton] at outer
      rcases outer with (deeper | deeper) | rfl
      · exact List.mem_append_left _ (List.mem_append_left _ (leftHypothesis deeper))
      · exact List.mem_append_left _ (List.mem_append_right _ (rightHypothesis deeper))
      · exact nested

end Calculator.Expr
