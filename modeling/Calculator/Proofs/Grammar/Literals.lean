/-
This file proves that the literals of a tree are those of its tokens, in the same order.
-/

import Calculator.Proofs.Grammar.Juxtaposition

namespace Calculator

def Expr.literals : Expr → List Float
  | .number x => [x]
  | .answer => []
  | .negate operand | .factorial operand => operand.literals
  | .binary _ left right => left.literals ++ right.literals
  | .call _ argument => argument.literals
  | .group inside => inside.literals

/-- The half turn is a literal without digits. -/
def Token.literal? : Token → Option Float
  | .number x => some x
  | .pi => some Binary64.pi
  | _ => none

theorem Derives.literals {layer : Layer} {tokens : List Token} {expr : Expr} {nesting : Nat}
    (derives : Derives layer tokens expr nesting) :
    expr.literals = tokens.filterMap Token.literal? := by
  induction derives with
  | number _ | pi | answer => rfl
  | loosen _ inductionHypothesis => exact inductionHypothesis
  | group _ inductionHypothesis | call _ _ inductionHypothesis | factorial _ inductionHypothesis
  | negate _ inductionHypothesis | keep _ inductionHypothesis =>
      simp [Expr.literals, List.filterMap_cons, Token.literal?, inductionHypothesis]
  | binary op _ _ leftHypothesis rightHypothesis =>
      simp [Expr.literals, List.filterMap_cons, Token.literal?, leftHypothesis, rightHypothesis]

/-- The found products are no literals. -/
theorem Token.literalsWithProducts (tokens : List Token) :
    (withProducts tokens).filterMap literal? = tokens.filterMap literal? :=
  filterMapWithProducts rfl tokens

end Calculator
