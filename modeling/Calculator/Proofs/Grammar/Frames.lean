/-
This file relates the frames of the reader to the layers of the grammar.
-/

import Calculator.Expr.Reading
import Calculator.Proofs.Grammar.Derivation

namespace Calculator

namespace Frame

/-- A frame waits for an operand of this layer. -/
def room : Frame → Layer
  | .operand _ op => op.right
  | .negate | .keep => .signed
  | .group | .call _ => .sum

/-- The operators that a frame admits are those of its operand's layer and of the tighter ones. -/
theorem admitsIffRank (frame : Frame) (op : Operator) :
    frame.admits op ↔ op.layer.rank ≤ frame.room.rank := by
  rcases frame with ⟨_, _ | _ | _ | _ | _⟩ | _ | _ | _ | _ <;> cases op <;>
    simp [admits, room, Operator.right, Operator.layer, Layer.rank]

theorem signedLeRoom (frame : Frame) : Layer.signed.rank ≤ frame.room.rank := by
  rcases frame with ⟨_, _ | _ | _ | _ | _⟩ | _ | _ | _ | _ <;>
    simp [room, Operator.right, Layer.rank]

theorem enclosesEqAdmits (frame : Frame) : frame.encloses = frame.admits .add := by
  rcases frame with ⟨_, _ | _ | _ | _ | _⟩ | _ | _ | _ | _ <;> rfl

end Frame

namespace Layer

/-- An operand of this layer may start above these frames. -/
def Fits (layer : Layer) : List Frame → Prop
  | [] => True
  | frame :: _ => layer.rank ≤ frame.room.rank

/-- The reader may leave this frame open at the end of an operand of this layer. -/
def Leaves (layer : Layer) (frame : Frame) : Prop :=
  match layer with
  | .primary | .marked => False
  | .power | .signed | .product => frame.room.rank < Layer.product.rank
  | .sum => frame.room.rank < Layer.sum.rank

theorem Fits.tighten {wide layer : Layer} {stack : List Frame} (fits : wide.Fits stack)
    (within : layer.rank ≤ wide.rank) : layer.Fits stack := by
  cases stack with
  | nil => trivial
  | cons frame rest => exact Nat.le_trans within fits

theorem fitsSigned (stack : List Frame) : Layer.signed.Fits stack := by
  cases stack with
  | nil => trivial
  | cons frame rest => exact frame.signedLeRoom

theorem rankLeLooser (layer : Layer) : layer.rank ≤ layer.looser.rank := by
  cases layer <;> decide

theorem Leaves.loosen {layer : Layer} {frame : Frame} (leaves : layer.Leaves frame) :
    layer.looser.Leaves frame := by
  cases layer <;> simp only [Leaves, looser, rank] at leaves ⊢ <;> omega

end Layer

namespace Operator

theorem leftLeLayer (op : Operator) : op.left.rank ≤ op.layer.rank := by
  cases op <;> decide

/-- An operation may start where its left operand may. -/
theorem fitsLayer {op : Operator} {stack : List Frame} (fits : op.left.Fits stack) :
    op.layer.Fits stack := by
  cases op
  case pow => exact (Layer.fitsSigned stack).tighten (by decide)
  all_goals exact fits

/-- An operator after its left operand completes every frame of that operand. -/
theorem refused {op : Operator} {frame : Frame} (leaves : op.left.Leaves frame) :
    frame.admits op = false := by
  have below : frame.room.rank < op.layer.rank := by
    cases op <;> simp_all [Operator.left, Operator.layer, Layer.Leaves]
  rw [Bool.eq_false_iff, ne_eq, Frame.admitsIffRank]
  omega

/-- An operator belongs to the frame before its left operand. -/
theorem admitted {op : Operator} {frame : Frame} {rest : List Frame}
    (fits : op.left.Fits (frame :: rest)) : frame.admits op := by
  have least := frame.signedLeRoom
  rw [Frame.admitsIffRank]
  cases op <;> simp only [Operator.left, Operator.layer, Layer.Fits, Layer.rank] at * <;> omega

theorem leavesOperand (op : Operator) (left : Expr) : op.layer.Leaves (.operand left op) := by
  cases op <;> simp [Operator.layer, Layer.Leaves, Frame.room, Operator.right, Layer.rank]

theorem leavesRight {op : Operator} {frame : Frame} (leaves : op.right.Leaves frame) :
    op.layer.Leaves frame := by
  cases op <;> simp only [Operator.right, Operator.layer, Layer.Leaves, Layer.rank] at * <;> omega

end Operator

namespace Frame

/-- The innermost frame is filled first. -/
def fillAll : List Frame → Expr → Expr
  | [], expr => expr
  | frame :: rest, expr => fillAll rest (frame.fill expr)

theorem fillAllAppend (frames stack : List Frame) (expr : Expr) :
    fillAll (frames ++ stack) expr = fillAll stack (fillAll frames expr) := by
  induction frames generalizing expr with
  | nil => rfl
  | cons frame rest tail => exact tail (frame.fill expr)

theorem settleAppend {op : Operator} {frames : List Frame}
    (refuse : ∀ frame ∈ frames, frame.admits op = false) (stack : List Frame) (expr : Expr) :
    settle op (frames ++ stack) expr = settle op stack (fillAll frames expr) := by
  induction frames generalizing expr with
  | nil => rfl
  | cons frame rest tail =>
      have head := refuse frame (by simp)
      simp only [List.cons_append, settle, head, fillAll]
      exact tail (fun other member => refuse other (by simp [member])) (frame.fill expr)

theorem settleFits {op : Operator} {stack : List Frame} (fits : op.left.Fits stack) (expr : Expr) :
    settle op stack expr = (stack, expr) := by
  cases stack with
  | nil => rfl
  | cons frame rest => rw [settle, if_pos (Operator.admitted fits)]

/-- An operator after a read operand leaves that operand and the frames before it. -/
theorem settleOperand (op : Operator) {frames stack : List Frame} {expr whole : Expr}
    (left : ∀ frame ∈ frames, op.left.Leaves frame) (filled : fillAll frames expr = whole)
    (fits : op.left.Fits stack) : settle op (frames ++ stack) expr = (stack, whole) := by
  have refuse : ∀ frame ∈ frames, frame.admits op = false :=
    fun frame member => Operator.refused (left frame member)
  rw [settleAppend refuse, filled, settleFits fits]

/-- A closing parenthesis first completes the same frames as an addition. -/
theorem closeSettle (stack : List Frame) (expr : Expr) :
    close? stack expr = close? (settle .add stack expr).1 (settle .add stack expr).2 := by
  induction stack generalizing expr with
  | nil => rfl
  | cons frame rest tail =>
      by_cases admitted : frame.admits .add
      · simp only [settle, admitted, if_true]
      · simp only [settle, admitted, close?, enclosesEqAdmits]
        exact tail (frame.fill expr)

/-- The end of the tokens completes the same frames as an addition. -/
theorem completeSettle (stack : List Frame) (expr : Expr) :
    complete? stack expr = complete? (settle .add stack expr).1 (settle .add stack expr).2 := by
  induction stack generalizing expr with
  | nil => rfl
  | cons frame rest tail =>
      by_cases admitted : frame.admits .add
      · simp only [settle, admitted, if_true]
      · simp only [settle, admitted, complete?, enclosesEqAdmits]
        exact tail (frame.fill expr)

theorem pushWithin {frame : Frame} {stack : List Frame} (room : stack.length + 2 ≤ depthLimit) :
    push frame stack = .ok (frame :: stack) := if_pos room

theorem pushBeyond {frame : Frame} {stack : List Frame} (full : depthLimit < stack.length + 2) :
    push frame stack = .error .tooDeep := if_neg (Nat.not_le.mpr full)

end Frame

end Calculator
