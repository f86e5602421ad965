/-
This file proves that the names in a tree are those among its tokens, in the same order.
-/

import Calculator.Proofs.Grammar.Juxtaposition

namespace Calculator

/-- The answer and the functions have names. -/
def Expr.names : Expr → List Token
  | .number _ => []
  | .answer => [.answer]
  | .negate operand | .factorial operand => operand.names
  | .binary _ left right => left.names ++ right.names
  | .call f argument => .function f :: argument.names
  | .group inside => inside.names

def Token.name? : Token → Option Token
  | .answer => some .answer
  | .function f => some (.function f)
  | _ => none

theorem Token.nameSelf {token name : Token} (named : token.name? = some name) : token = name := by
  cases token <;> cases named <;> rfl

theorem Derives.names {layer : Layer} {tokens : List Token} {expr : Expr} {nesting : Nat}
    (derives : Derives layer tokens expr nesting) :
    expr.names = tokens.filterMap Token.name? := by
  induction derives with
  | number _ | pi | answer => rfl
  | loosen _ inductionHypothesis => exact inductionHypothesis
  | group _ inductionHypothesis | call _ _ inductionHypothesis | factorial _ inductionHypothesis
  | negate _ inductionHypothesis | keep _ inductionHypothesis =>
      simp [Expr.names, List.filterMap_cons, Token.name?, inductionHypothesis]
  | binary op _ _ leftHypothesis rightHypothesis =>
      simp [Expr.names, List.filterMap_cons, Token.name?, leftHypothesis, rightHypothesis]

/-- The found products are no names. -/
theorem Token.namesWithProducts (tokens : List Token) :
    (withProducts tokens).filterMap name? = tokens.filterMap name? :=
  filterMapWithProducts rfl tokens

end Calculator
