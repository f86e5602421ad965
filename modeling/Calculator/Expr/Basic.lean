/-
This file holds the tree of an expression and its text.
-/

import Calculator.Token.Basic

namespace Calculator

/-- A group keeps a pair of parentheses, and it has the value of its inside. -/
inductive Expr where
  | number (x : Float)
  | answer
  | negate (operand : Expr)
  | binary (op : Operator) (left right : Expr)
  | call (f : NamedFunction) (argument : Expr)
  | factorial (operand : Expr)
  | group (inside : Expr)
  deriving DecidableEq

namespace Expr

/-- The text shows every operation inside its own parentheses, so a group needs none. -/
def spelling : Expr → List Char
  | .number x => spellNumber x
  | .answer => "Ans".toList
  | .negate operand => '(' :: '-' :: operand.spelling ++ [')']
  | .binary op left right =>
    '(' :: left.spelling ++ ' ' :: op.symbol :: ' ' :: right.spelling ++ [')']
  | .call f argument => f.name.toList ++ '[' :: argument.spelling ++ [']']
  | .factorial operand => '(' :: operand.spelling ++ ['!', ')']
  | .group inside => inside.spelling

def text (expr : Expr) : String :=
  String.ofList expr.spelling

end Expr

end Calculator
