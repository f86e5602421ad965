/-
This file proves that every list that the reader reads is derived within the limit of the nesting.
-/

import Calculator.Proofs.Grammar.Frames

namespace Calculator

/-- The frames wait for an operand after these tokens, and every left operand in them is derived
within the limit of the nesting. -/
inductive Pending : List Frame → List Token → Prop where
  | start : Pending [] []
  | group {stack : List Frame} {tokens : List Token} :
      Pending stack tokens → Pending (.group :: stack) (tokens ++ [.opening])
  | call (f : NamedFunction) {stack : List Frame} {tokens : List Token} :
      Pending stack tokens → Pending (.call f :: stack) (tokens ++ [.function f, .opening])
  | negate {stack : List Frame} {tokens : List Token} :
      Pending stack tokens → Pending (.negate :: stack) (tokens ++ [.operator .sub])
  | keep {stack : List Frame} {tokens : List Token} :
      Pending stack tokens → Pending (.keep :: stack) (tokens ++ [.operator .add])
  | operand (op : Operator) {stack : List Frame} {tokens first : List Token} {left : Expr}
      {nesting : Nat} :
      Pending stack tokens → op.left.Fits stack → Derives op.left first left nesting →
      nesting + stack.length ≤ Frame.depthLimit →
      Pending (.operand left op :: stack) (tokens ++ first ++ [.operator op])

/-- An operand above the frames is derived from the last tokens. -/
def Holds (layer : Layer) (stack : List Frame) (expr : Expr) (tokens : List Token) : Prop :=
  ∃ before inside nesting, tokens = before ++ inside ∧ Pending stack before ∧
    layer.Fits stack ∧ Derives layer inside expr nesting ∧
    nesting + stack.length ≤ Frame.depthLimit

/-- A filled frame belongs to this layer. -/
def Frame.filled : Frame → Layer
  | .operand _ op => op.layer
  | .negate | .keep => .signed
  | .group | .call _ => .primary

theorem Frame.filledLeRoom (frame : Frame) : frame.filled.rank ≤ frame.room.rank + 1 := by
  rcases frame with ⟨_, _ | _ | _ | _ | _⟩ | _ | _ | _ | _ <;>
    simp [filled, room, Operator.layer, Operator.right, Layer.rank]

namespace Holds

variable {layer : Layer} {stack : List Frame} {frame : Frame} {expr : Expr} {tokens : List Token}

/-- A complete operand fills the frame before it. -/
theorem fill (holds : Holds layer (frame :: stack) expr tokens) (inner : frame.encloses = false) :
    Holds frame.filled stack (frame.fill expr) tokens := by
  obtain ⟨before, inside, nesting, rfl, pending, fits, derives, shallow⟩ := holds
  have operand : Derives frame.room inside expr nesting := derives.widen _ fits
  rw [List.length_cons] at shallow
  cases pending with
  | group _ => exact absurd inner (by decide)
  | call f _ => exact absurd inner (by simp [Frame.encloses])
  | @negate _ before pending =>
      exact ⟨before, _, nesting + 1, by simp, pending, Layer.fitsSigned _, operand.negate,
        by omega⟩
  | @keep _ before pending =>
      exact ⟨before, _, nesting + 1, by simp, pending, Layer.fitsSigned _, operand.keep,
        by omega⟩
  | @operand op _ before first left other pending fitsLeft derivesLeft shallowLeft =>
      exact ⟨before, _, max other (nesting + 1), by simp, pending, Operator.fitsLayer fitsLeft,
        .binary op derivesLeft operand, by omega⟩

/-- An operator settles a tight operand into its left operand. -/
theorem settle (op : Operator) (holds : Holds layer stack expr tokens)
    (within : layer.rank ≤ op.left.rank) :
    Holds op.left (Frame.settle op stack expr).1 (Frame.settle op stack expr).2 tokens := by
  induction stack generalizing layer expr with
  | nil =>
      obtain ⟨before, inside, nesting, split, pending, _, derives, shallow⟩ := holds
      exact ⟨before, inside, nesting, split, pending, trivial, derives.widen _ within, shallow⟩
  | cons frame rest tail =>
      by_cases admitted : frame.admits op
      · have room := (frame.admitsIffRank op).mp admitted
        obtain ⟨before, inside, nesting, split, pending, _, derives, shallow⟩ := holds
        simp only [Frame.settle, admitted, if_true]
        exact ⟨before, inside, nesting, split, pending, Nat.le_trans op.leftLeLayer room,
          derives.widen _ within, shallow⟩
      · have tight : frame.room.rank < op.layer.rank := by
          rw [Frame.admitsIffRank] at admitted
          omega
        have inner : frame.encloses = false := by
          rw [frame.enclosesEqAdmits, Bool.eq_false_iff, ne_eq, Frame.admitsIffRank]
          have loosest : op.layer.rank ≤ Layer.sum.rank := by cases op <;> decide
          exact Nat.not_le.mpr (Nat.lt_of_lt_of_le tight loosest)
        have chains : op.layer.rank ≤ op.left.rank := by
          have least := frame.signedLeRoom
          cases op
          case pow => exact absurd (Nat.lt_of_le_of_lt least tight) (by decide)
          all_goals exact Nat.le_refl _
        have filled := frame.filledLeRoom
        simp only [Frame.settle, admitted]
        exact tail (holds.fill inner) (by omega)

theorem room (holds : Holds layer stack expr tokens) : stack.length < Frame.depthLimit := by
  obtain ⟨_, _, nesting, _, _, _, derives, shallow⟩ := holds
  have := derives.positive
  omega

/-- A closing parenthesis completes the frame before a sum. -/
theorem close (holds : Holds .sum (frame :: stack) expr tokens) :
    frame.encloses ∧ Holds .marked stack (frame.fill expr) (tokens ++ [.closing]) := by
  obtain ⟨before, inside, nesting, rfl, pending, fits, derives, shallow⟩ := holds
  rw [List.length_cons] at shallow
  have encloses : frame.encloses := by
    rw [frame.enclosesEqAdmits, Frame.admitsIffRank]
    exact fits
  have loose : Layer.marked.Fits stack := (Layer.fitsSigned stack).tighten (by decide)
  refine ⟨encloses, ?_⟩
  cases pending with
  | @group _ before pending =>
      exact ⟨before, _, nesting + 1, by simp, pending, loose, derives.group.loosen, by omega⟩
  | @call f _ before pending =>
      exact ⟨before, _, nesting + 1, by simp, pending, loose, (derives.call f).loosen, by omega⟩
  | negate _ | keep _ | operand _ _ _ _ _ => cases encloses

end Holds

namespace Reader

/-- The reader is in this state after these tokens. -/
def Follows (reader : Reader) (tokens : List Token) : Prop :=
  reader.stack.length < Frame.depthLimit ∧
    match reader.phase with
    | .operand => Pending reader.stack tokens
    | .called f => ∃ before, tokens = before ++ [.function f] ∧ Pending reader.stack before
    | .opened f => Pending (enclosing f :: reader.stack) tokens
    | .value expr => Holds .marked reader.stack expr tokens

variable {position next : Nat} {stack above : List Frame} {phase after : Phase} {token : Token}
  {tokens : List Token} {expr : Expr}

theorem followsPush {frame : Frame} (pending : Pending (frame :: stack) tokens)
    (taken : (Frame.push frame stack).map (fun stack => (stack, Phase.operand)) =
      .ok (above, after)) : Follows ⟨next, above, after⟩ tokens := by
  by_cases room : stack.length + 2 ≤ Frame.depthLimit
  · rw [Frame.pushWithin room] at taken
    cases taken
    exact ⟨room, pending⟩
  · rw [Frame.pushBeyond (Nat.lt_of_not_le room)] at taken
    cases taken

/-- An operand of one token is complete. -/
theorem followsToken (pending : Pending stack tokens) (room : stack.length < Frame.depthLimit)
    (derives : Derives .primary [token] expr 1) :
    Follows ⟨next, stack, .value expr⟩ (tokens ++ [token]) :=
  ⟨room, tokens, [token], 1, rfl, pending, (Layer.fitsSigned stack).tighten (by decide),
    derives.loosen, by show 1 + stack.length ≤ _; omega⟩

theorem followsOperand (pending : Pending stack tokens) (room : stack.length < Frame.depthLimit)
    (taken : operand position stack token = .ok (above, after)) :
    Follows ⟨next, above, after⟩ (tokens ++ [token]) := by
  cases token with
  | number x =>
      cases taken
      exact followsToken pending room (.number x)
  | pi =>
      cases taken
      exact followsToken pending room .pi
  | answer =>
      cases taken
      exact followsToken pending room .answer
  | function f =>
      cases taken
      exact ⟨room, tokens, rfl, pending⟩
  | opening =>
      cases taken
      exact ⟨room, pending.group⟩
  | operator op =>
      cases op with
      | add => exact followsPush pending.keep taken
      | sub => exact followsPush pending.negate taken
      | mul | div | pow => cases taken
  | factorial | closing => cases taken

theorem followsClosing (holds : Holds .marked stack expr tokens)
    (taken : afterValue position stack expr .closing = .ok (above, after)) :
    Follows ⟨next, above, after⟩ (tokens ++ [.closing]) := by
  have settled := holds.settle .add (by decide)
  simp only [afterValue] at taken
  rw [Frame.closeSettle] at taken
  cases frames : (Frame.settle .add stack expr).1 with
  | nil =>
      rw [frames] at taken
      cases taken
  | cons frame rest =>
      rw [frames] at taken settled
      obtain ⟨encloses, closed⟩ := settled.close
      rw [Frame.close?, if_pos encloses] at taken
      cases taken
      exact ⟨closed.room, closed⟩

theorem followsValue (holds : Holds .marked stack expr tokens)
    (taken : afterValue position stack expr token = .ok (above, after)) :
    Follows ⟨next, above, after⟩ (tokens ++ [token]) := by
  cases token with
  | factorial =>
      cases taken
      have room := holds.room
      obtain ⟨before, inside, nesting, rfl, pending, fits, derives, shallow⟩ := holds
      exact ⟨room, before, _, nesting, by simp, pending, fits, derives.factorial, shallow⟩
  | operator op =>
      have tight : Layer.marked.rank ≤ op.left.rank := by cases op <;> decide
      obtain ⟨before, inside, nesting, rfl, pending, fits, derives, shallow⟩ :=
        holds.settle op tight
      exact followsPush (.operand op pending fits derives shallow) taken
  | closing => exact followsClosing holds taken
  | number _ | pi | answer | function _ | opening => cases taken

/-- Each step keeps the state of the reader in line with the tokens. -/
theorem followsStep {reader reached : Reader} (follows : reader.Follows tokens)
    (taken : reader.step token = .ok reached) : reached.Follows (tokens ++ [token]) := by
  obtain ⟨position, stack, phase⟩ := reader
  obtain ⟨room, state⟩ := follows
  simp only [step] at taken
  split at taken
  case h_2 => cases taken
  case h_1 above after advanced =>
  cases taken
  cases phase with
  | operand => exact followsOperand state room advanced
  | called f =>
      obtain ⟨before, rfl, pending⟩ := state
      simp only [advance] at advanced
      split at advanced
      · next opening =>
        cases advanced
        rw [opening, List.append_assoc]
        exact ⟨room, pending.call f⟩
      · cases advanced
  | opened f =>
      simp only [advance] at advanced
      split at advanced
      · cases advanced
      · by_cases within : stack.length + 2 ≤ Frame.depthLimit
        · rw [Frame.pushWithin within] at advanced
          exact followsOperand state within advanced
        · rw [Frame.pushBeyond (Nat.lt_of_not_le within)] at advanced
          cases advanced
  | value expr => exact followsValue state advanced

theorem followsStart : start.Follows [] :=
  ⟨by decide, .start⟩

/-- The state follows from the whole run. -/
theorem followsRun {reader reached : Reader} {before tokens : List Token}
    (follows : reader.Follows before) (taken : reader.run tokens = .ok reached) :
    reached.Follows (before ++ tokens) := by
  induction tokens generalizing reader before with
  | nil =>
      cases taken
      simpa using follows
  | cons token rest tail =>
      simp only [run] at taken
      split at taken
      · next middle stepped =>
        have := tail (followsStep follows stepped) taken
        simpa using this
      · cases taken

/-- A complete value is a derived sum. -/
theorem followsFinish {reader : Reader} (follows : reader.Follows tokens)
    (finished : reader.finish = .ok expr) :
    ∃ nesting ≤ Frame.depthLimit, Derives .sum tokens expr nesting := by
  obtain ⟨position, stack, phase⟩ := reader
  obtain ⟨_, state⟩ := follows
  cases phase with
  | operand | called f => cases finished
  | opened f =>
      simp only [finish] at finished
      split at finished <;> cases finished
  | value operand =>
      have settled : Holds .sum _ _ tokens := state.settle .add (by decide)
      simp only [finish, Frame.completeSettle stack operand] at finished
      cases frames : (Frame.settle .add stack operand).1 with
      | nil =>
          rw [frames] at finished settled
          cases finished
          obtain ⟨before, inside, nesting, rfl, pending, _, derives, shallow⟩ := settled
          cases pending
          exact ⟨nesting, shallow, derives⟩
      | cons frame rest =>
          rw [frames] at finished settled
          rw [Frame.complete?, if_pos settled.close.1] at finished
          cases finished

end Reader

/-- A list with a tree is derived within the limit of the nesting. -/
theorem Expr.derivesOfTokens {tokens : List Token} {expr : Expr}
    (read : ofTokens tokens = .ok expr) :
    tokens.length ≤ tokenLimit ∧
      ∃ nesting ≤ Frame.depthLimit, Derives .sum tokens expr nesting := by
  unfold ofTokens at read
  split at read
  · cases read
  · split at read
    · cases read
    · next short =>
      refine ⟨Nat.le_of_not_lt short, ?_⟩
      split at read
      · next reader reached =>
        exact Reader.followsFinish (Reader.followsRun Reader.followsStart reached) read
      · cases read

end Calculator
