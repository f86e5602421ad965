/-
This file proves that the reader accepts exactly the grammar within its two limits.
-/

import Calculator.Proofs.Grammar.Completeness
import Calculator.Proofs.Grammar.Soundness

namespace Calculator.Expr

variable {tokens : List Token} {first second : Expr} {m n : Nat}

/-- Two derivations of one list lie on the same side of the limit. -/
theorem deepWithin (derives : Derives .sum tokens first m) (short : tokens.length ≤ tokenLimit)
    (deep : Frame.depthLimit < m) (other : Derives .sum tokens second n) :
    Frame.depthLimit < n := by
  apply Nat.lt_of_not_le
  intro shallow
  have read := ofTokensShallow other short shallow
  rw [ofTokensDeep derives short deep] at read
  cases read

/-- Every sign before an operand adds one to its nesting. -/
theorem derivesSigns (count : Nat) : ∃ tree,
    Derives .signed (List.replicate count (.operator .sub) ++ [.answer]) tree (count + 1) := by
  induction count with
  | zero => exact ⟨_, Derives.answer.widen _ (by decide)⟩
  | succ count inductionHypothesis =>
      obtain ⟨tree, derives⟩ := inductionHypothesis
      exact ⟨_, derives.negate⟩

/-- The reader gives exactly the trees that the grammar derives within the limits of the length and
of the nesting, and a list that is derived only beyond the limit of the nesting is too deep. -/
theorem ofTokensIffDerives (tokens : List Token) (expr : Expr) :
    (ofTokens tokens = .ok expr ↔ 1 ≤ tokens.length ∧ tokens.length ≤ 1024 ∧
      ∃ nesting ≤ 200, Derives .sum tokens expr nesting) ∧
    (1 ≤ tokens.length → tokens.length ≤ 1024 →
      (∃ tree nesting, Derives .sum tokens tree nesting) →
      (∀ tree nesting, Derives .sum tokens tree nesting → 200 < nesting) →
      ofTokens tokens = .error .tooDeep) := by
  refine ⟨⟨fun read => ?_, ?_⟩, ?_⟩
  · obtain ⟨short, nesting, shallow, derives⟩ := derivesOfTokens read
    obtain ⟨token, rest, rfl, _⟩ := derives.starts
    exact ⟨Nat.succ_pos _, short, nesting, shallow, derives⟩
  · rintro ⟨_, short, nesting, shallow, derives⟩
    exact ofTokensShallow derives short shallow
  · rintro _ short ⟨tree, nesting, derives⟩ deep
    exact ofTokensDeep derives short (deep tree nesting derives)

/-- The limit admits 199 signs before an operand, and one sign more is too deep. -/
theorem ofTokensSigns :
    (∃ tree, ofTokens (List.replicate 199 (.operator .sub) ++ [.answer]) = .ok tree) ∧
      ofTokens (List.replicate 200 (.operator .sub) ++ [.answer]) = .error .tooDeep := by
  obtain ⟨shallowTree, shallow⟩ := derivesSigns 199
  obtain ⟨deepTree, deep⟩ := derivesSigns 200
  have shallowSum := shallow.widen .sum (by decide)
  have deepSum := deep.widen .sum (by decide)
  have length (count : Nat) :
      (List.replicate count (Token.operator .sub) ++ [Token.answer]).length = count + 1 := by simp
  refine ⟨⟨shallowTree, ?_⟩, ?_⟩
  · exact (ofTokensIffDerives _ _).1.mpr
      ⟨by rw [length]; decide, by rw [length]; decide, _, by decide, shallowSum⟩
  · exact (ofTokensIffDerives _ deepTree).2 (by rw [length]; decide) (by rw [length]; decide)
      ⟨_, _, deepSum⟩ fun _ _ other => deepWithin deepSum (by rw [length]; decide) (by decide) other

end Calculator.Expr
