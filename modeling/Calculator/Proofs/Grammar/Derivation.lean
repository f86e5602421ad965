/-
This file holds the grammar of the expressions.
-/

import Calculator.Expr.Basic

namespace Calculator

/-- The layers go from the tightest to the loosest. A mark is a factorial sign. -/
inductive Layer where
  | primary
  | marked
  | power
  | signed
  | product
  | sum
  deriving DecidableEq

namespace Layer

def rank : Layer → Nat
  | .primary => 0
  | .marked => 1
  | .power => 2
  | .signed => 3
  | .product => 4
  | .sum => 5

/-- Whatever a layer derives, the next looser layer derives too. -/
def looser : Layer → Layer
  | .primary => .marked
  | .marked => .power
  | .power => .signed
  | .signed => .product
  | .product => .sum
  | .sum => .sum

end Layer

namespace Operator

/-- An operation belongs to this layer. -/
def layer : Operator → Layer
  | .add | .sub => .sum
  | .mul | .div => .product
  | .pow => .power

/-- Sums and products chain to the left, and the base of a power has no sign of its own. -/
def left : Operator → Layer
  | .add | .sub => .sum
  | .mul | .div => .product
  | .pow => .marked

/-- The exponent of a power may have a sign or be a power again. -/
def right : Operator → Layer
  | .add | .sub => .product
  | .mul | .div | .pow => .signed

end Operator

/-- A layer derives a list of tokens with its tree and its nesting. The nesting counts the groups,
the calls, the signs and the right operands around the innermost operand, and itself. -/
inductive Derives : Layer → List Token → Expr → Nat → Prop where
  | number (x : Float) : Derives .primary [.number x] (.number x) 1
  | pi : Derives .primary [.pi] (.number Binary64.pi) 1
  | answer : Derives .primary [.answer] .answer 1
  | group {inside : List Token} {expr : Expr} {nesting : Nat} :
      Derives .sum inside expr nesting →
      Derives .primary (.opening :: (inside ++ [.closing])) (.group expr) (nesting + 1)
  | call (f : NamedFunction) {inside : List Token} {expr : Expr} {nesting : Nat} :
      Derives .sum inside expr nesting →
      Derives .primary (.function f :: .opening :: (inside ++ [.closing])) (.call f expr)
        (nesting + 1)
  | factorial {tokens : List Token} {expr : Expr} {nesting : Nat} :
      Derives .marked tokens expr nesting →
      Derives .marked (tokens ++ [.factorial]) (.factorial expr) nesting
  | negate {tokens : List Token} {expr : Expr} {nesting : Nat} :
      Derives .signed tokens expr nesting →
      Derives .signed (.operator .sub :: tokens) (.negate expr) (nesting + 1)
  | keep {tokens : List Token} {expr : Expr} {nesting : Nat} :
      Derives .signed tokens expr nesting →
      Derives .signed (.operator .add :: tokens) expr (nesting + 1)
  | binary (op : Operator) {first second : List Token} {left right : Expr} {m n : Nat} :
      Derives op.left first left m → Derives op.right second right n →
      Derives op.layer (first ++ .operator op :: second) (.binary op left right) (max m (n + 1))
  | loosen {layer : Layer} {tokens : List Token} {expr : Expr} {nesting : Nat} :
      Derives layer tokens expr nesting → Derives layer.looser tokens expr nesting

namespace Derives

variable {layer : Layer} {tokens : List Token} {expr : Expr} {nesting : Nat}

/-- A derivation serves every looser layer. -/
theorem widen (derives : Derives layer tokens expr nesting) (wide : Layer)
    (within : layer.rank ≤ wide.rank) : Derives wide tokens expr nesting := by
  have climb (count : Nat) : Derives (Nat.repeat Layer.looser count layer) tokens expr nesting := by
    induction count with
    | zero => exact derives
    | succ count reached => exact reached.loosen
  have arrives : Nat.repeat Layer.looser (wide.rank - layer.rank) layer = wide := by
    revert within
    cases layer <;> cases wide <;> decide
  rw [← arrives]
  exact climb _

theorem positive (derives : Derives layer tokens expr nesting) : 0 < nesting := by
  induction derives with
  | number _ | pi | answer => decide
  | group _ _ | call _ _ _ | negate _ _ | keep _ _ => exact Nat.succ_pos _
  | factorial _ inside | loosen _ inside => exact inside
  | binary op _ _ inside _ => exact Nat.lt_of_lt_of_le inside (Nat.le_max_left _ _)

/-- No derived list starts with a closing parenthesis. -/
theorem starts (derives : Derives layer tokens expr nesting) :
    ∃ token rest, tokens = token :: rest ∧ token ≠ .closing := by
  induction derives with
  | number x => exact ⟨_, _, rfl, by simp⟩
  | pi | answer | group _ _ | negate _ _ | keep _ _ => exact ⟨_, _, rfl, by decide⟩
  | call f _ _ => exact ⟨_, _, rfl, by simp⟩
  | loosen _ inside => exact inside
  | factorial _ inside =>
      obtain ⟨token, rest, rfl, opens⟩ := inside
      exact ⟨token, rest ++ [.factorial], rfl, opens⟩
  | binary op _ _ inside _ =>
      obtain ⟨token, rest, rfl, opens⟩ := inside
      exact ⟨token, _, rfl, opens⟩

end Derives

end Calculator
