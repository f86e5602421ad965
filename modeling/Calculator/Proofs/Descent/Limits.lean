/-
This file puts the limits of the calls and of the trees together.
-/

import Calculator.Proofs.Descent.Agreement
import Calculator.Proofs.Evaluation.Nesting

namespace Calculator.Descent

/-- A tree has no more parts than there are tokens, and the tokens are limited. -/
theorem sizeOfRead {tokens : List Token} {expr : Expr} (read : Expr.ofTokens tokens = .ok expr) :
    expr.size ≤ tokens.length ∧ tokens.length ≤ tokenLimit := by
  obtain ⟨short, _, _, derives⟩ := Expr.derivesOfTokens read
  exact ⟨derives.size, short⟩

/-- The limits bound every call on every list of tokens, and the calls read what the frames read.
While the inside of a call works, at most 200 calls are open. A call that returns an operand leaves
as many calls open as it found, and it has read a token. The evaluation and the display of the tree
nest at most 1024 calls. -/
theorem parseBounded [Elementary] (tokens : List Token) :
    (parse tokens).ending = some (Expr.ofTokens tokens) ∧
    (∀ cursor, .looked cursor ∈ (parse tokens).events → cursor.depth ≤ 200) ∧
    (∀ entry exit, .returned entry exit ∈ (parse tokens).events →
      exit.depth = entry.depth ∧ entry.position < exit.position ∧
        exit.position ≤ tokens.length) ∧
    ∀ expr, Expr.ofTokens tokens = .ok expr →
      expr.size ≤ tokens.length ∧ tokens.length ≤ 1024 ∧
        (∀ answer unit, expr.computeWithin answer unit 1024 = some (expr.compute answer unit)) ∧
        expr.spellingWithin 1024 = some expr.spelling := by
  have bounded := (parseEnsures tokens).events
  refine ⟨parseEnding tokens, fun cursor looked => bounded _ looked, ?_, ?_⟩
  · intro entry exit returned
    have advances : Advances tokens entry exit := bounded _ returned
    exact ⟨advances.depth, advances.forward, advances.within⟩
  · intro expr read
    obtain ⟨small, short⟩ := sizeOfRead read
    have enough : expr.height ≤ 1024 :=
      Nat.le_trans expr.heightLeSize (Nat.le_trans small short)
    refine ⟨small, short, Expr.computeWithinHeight enough, ?_⟩
    rw [Expr.spellingWithinEq, if_pos enough]

/-- The right operand of the sum is read by the fourth open call. -/
theorem parseBoundedFactorial :
    let tokens : List Token :=
      [.operator .sub, .opening, .number 2, .operator .add, .answer, .closing, .factorial]
    let expr : Expr := .negate (.factorial (.group (.binary .add (.number 2) .answer)))
    let deepest : Cursor := ⟨4, 4⟩
    let entry : Cursor := ⟨1, 1⟩
    let exit : Cursor := ⟨7, 1⟩
    (.looked deepest ∈ (parse tokens).events ∧ deepest.depth ≤ 200) ∧
      (.returned entry exit ∈ (parse tokens).events ∧ entry.position < exit.position ∧
        exit.position ≤ tokens.length) ∧
      Expr.ofTokens tokens = .ok expr ∧ expr.size ≤ tokens.length ∧
        expr.spellingWithin 1024 = some "(-((2 + Ans)!))".toList := by
  intro tokens expr deepest entry exit
  have looked : .looked deepest ∈ (parse tokens).events := by decide +kernel
  have returned : .returned entry exit ∈ (parse tokens).events := by decide +kernel
  have read : Expr.ofTokens tokens = .ok expr := rfl
  obtain ⟨_, depths, returns, trees⟩ := parseBounded tokens
  obtain ⟨small, _, _, displayed⟩ := trees expr read
  refine ⟨⟨looked, depths _ looked⟩, ⟨returned, (returns _ _ returned).2⟩, read, small, ?_⟩
  rw [displayed]
  decide +kernel

end Calculator.Descent
