/-
This file proves that the calls read the same expressions as the frames, and that they refuse the
same lists for the same causes.
-/

import Calculator.Proofs.Descent.Bounds
import Calculator.Proofs.Grammar.Frames

namespace Calculator

namespace Frame

/-- A call that fills the frame has this strength. -/
def strength : Frame → Nat
  | .operand _ op => op.rightStrength
  | .negate | .keep => Descent.signStrength
  | .group | .call _ => 0

theorem admitsIffStrength (frame : Frame) (op : Operator) :
    frame.admits op ↔ frame.strength ≤ op.leftStrength := by
  rcases frame with ⟨_, _ | _ | _ | _ | _⟩ | _ | _ | _ | _ <;> cases op <;>
    simp [admits, strength, Operator.leftStrength, Operator.rightStrength, Descent.signStrength]

theorem strengthLe (frame : Frame) : frame.strength ≤ Descent.factorialStrength := by
  rcases frame with ⟨_, _ | _ | _ | _ | _⟩ | _ | _ | _ | _ <;>
    simp [strength, Operator.rightStrength, Descent.signStrength, Descent.factorialStrength]

end Frame

namespace Descent

/-- The call that is open last fills the innermost frame, and the first call fills none. -/
def innermost : List Frame → Nat
  | [] => 0
  | frame :: _ => frame.strength

theorem innermostLe (stack : List Frame) : innermost stack ≤ factorialStrength := by
  cases stack with
  | nil => exact Nat.zero_le _
  | cons frame rest => exact frame.strengthLe

/-- This is what the reader makes of the tokens from this position on. -/
def outcome (tokens : List Token) (position : Nat) (stack : List Frame) (phase : Phase) :
    Except SyntaxError Expr :=
  match Reader.run ⟨position, stack, phase⟩ (tokens.drop position) with
  | .ok reached => reached.finish
  | .error cause => .error cause

/-- The reader opens a frame before its operand. -/
def entered (tokens : List Token) (position : Nat) (frame : Frame) (stack : List Frame) :
    Except SyntaxError Expr :=
  match Frame.push frame stack with
  | .ok above => outcome tokens position above .operand
  | .error cause => .error cause

section Outcomes

variable {tokens : List Token} {position : Nat} {stack : List Frame} {phase : Phase}
  {frame : Frame} {token : Token} {expr : Expr}

theorem outcomeEnd (here : tokens[position]? = none) :
    outcome tokens position stack phase = Reader.finish ⟨position, stack, phase⟩ := by
  rw [outcome, List.drop_eq_nil_of_le (List.getElem?_eq_none_iff.mp here)]
  rfl

theorem outcomeToken (here : tokens[position]? = some token) :
    outcome tokens position stack phase =
      match Reader.advance position stack token phase with
      | .ok (above, after) => outcome tokens (position + 1) above after
      | .error cause => .error cause := by
  obtain ⟨inside, rfl⟩ := List.getElem?_eq_some_iff.mp here
  rw [outcome, List.drop_eq_getElem_cons inside, Reader.run, Reader.step]
  cases Reader.advance position stack tokens[position] phase <;> rfl

theorem outcomePushed :
    (match (Frame.push frame stack).map fun stack => (stack, Phase.operand) with
      | .ok (above, after) => outcome tokens position above after
      | .error cause => .error cause) = entered tokens position frame stack := by
  rw [entered]
  cases Frame.push frame stack <;> rfl

/-- The reader fills a frame at once, because what stops its call belongs to no operand of it. -/
theorem outcomeFill (inner : frame.encloses = false)
    (stops : Stops frame.strength tokens[position]?) :
    outcome tokens position (frame :: stack) (.value expr) =
      outcome tokens position stack (.value (frame.fill expr)) := by
  cases here : tokens[position]? with
  | none =>
      rw [outcomeEnd here, outcomeEnd here]
      simp only [Reader.finish, Frame.complete?, inner, Bool.false_eq_true, if_false]
  | some token =>
      rw [here] at stops
      rw [outcomeToken here, outcomeToken here]
      cases token with
      | number _ | pi | answer | function _ | opening => rfl
      | factorial => exact absurd frame.strengthLe (Nat.not_le.mpr stops)
      | closing =>
          simp only [Reader.advance, Reader.afterValue, Frame.close?, inner, Bool.false_eq_true,
            if_false]
      | operator op =>
          have refuses : frame.admits op = false := by
            rw [Bool.eq_false_iff, ne_eq, Frame.admitsIffStrength]
            exact Nat.not_le.mpr stops
          simp only [Reader.advance, Reader.afterValue, Frame.settle, refuses, Bool.false_eq_true,
            if_false]

/-- An opened parenthesis is a frame unless it is closed at once. -/
theorem outcomeOpened (f : Option NamedFunction) (apart : tokens[position]? ≠ some .closing) :
    outcome tokens position stack (.opened f) =
      entered tokens position (Reader.enclosing f) stack := by
  rw [entered]
  cases here : tokens[position]? with
  | none =>
      rw [outcomeEnd here]
      simp only [Reader.finish]
      cases Frame.push (Reader.enclosing f) stack with
      | error cause => rfl
      | ok above => exact (outcomeEnd here : outcome tokens position above .operand = _).symm
  | some token =>
      have inside : token ≠ .closing := fun same => apart (same ▸ here)
      rw [outcomeToken here]
      simp only [Reader.advance, if_neg inside]
      cases Frame.push (Reader.enclosing f) stack with
      | error cause => rfl
      | ok above => exact (outcomeToken here : outcome tokens position above .operand = _).symm

/-- An operator that the innermost frame admits opens a frame of its own. -/
theorem outcomeOperator {op : Operator} (here : tokens[position]? = some (.operator op))
    (admitted : innermost stack ≤ op.leftStrength) :
    outcome tokens position stack (.value expr) =
      entered tokens (position + 1) (.operand expr op) stack := by
  have settled : Frame.settle op stack expr = (stack, expr) := by
    cases stack with
    | nil => rfl
    | cons frame rest => rw [Frame.settle, if_pos ((frame.admitsIffStrength op).mpr admitted)]
  rw [outcomeToken here]
  simp only [Reader.advance, Reader.afterValue, settled]
  exact outcomePushed

end Outcomes

/-- The record ends as the whole does, if its value goes on as told. -/
def Record.Agrees {A : Type} (record : Record A) (goesOn : A → Except SyntaxError Expr)
    (whole : Except SyntaxError Expr) : Prop :=
  match record.ending with
  | some (.ok value) => goesOn value = whole
  | some (.error cause) => .error cause = whole
  | none => False

namespace Record

variable {A B : Type} {record : Record A} {next : A → Record B}
  {middle other : A → Except SyntaxError Expr} {goesOn : B → Except SyntaxError Expr}
  {whole : Except SyntaxError Expr}

theorem Agrees.andThen (agrees : record.Agrees middle whole)
    (later : ∀ value, record.ending = some (.ok value) →
      (next value).Agrees goesOn (middle value)) :
    (record.andThen next).Agrees goesOn whole := by
  cases ended : record.ending with
  | none => simp [Agrees, ended] at agrees
  | some result =>
      cases result with
      | error cause =>
          simp only [Agrees, ended, Record.andThen] at agrees ⊢
          exact agrees
      | ok value =>
          have rest := later value ended
          simp only [Agrees, ended] at agrees
          simp only [Agrees, ended, Record.andThen]
          rwa [agrees] at rest

theorem Agrees.congr (agrees : record.Agrees middle whole)
    (same : ∀ value, record.ending = some (.ok value) → middle value = other value) :
    record.Agrees other whole := by
  cases ended : record.ending with
  | none => simp [Agrees, ended] at agrees
  | some result =>
      cases result with
      | error cause =>
          simp only [Agrees, ended] at agrees ⊢
          exact agrees
      | ok value =>
          simp only [Agrees, ended] at agrees ⊢
          rw [← same value ended, agrees]

theorem Agrees.ending {record : Record Expr} (agrees : record.Agrees .ok whole) :
    record.ending = some whole := by
  cases ended : record.ending with
  | none => simp [Agrees, ended] at agrees
  | some result =>
      cases result <;> simp only [Agrees, ended] at agrees <;> rw [agrees]

end Record

section Calls

variable {tokens : List Token} {call : Call} {start clock : Nat} {stack : List Frame}
  {cursor : Cursor}

/-- The operand that a call returned goes on below the frames. -/
def goesOn (tokens : List Token) (stack : List Frame) (result : Expr × Cursor) :
    Except SyntaxError Expr :=
  outcome tokens result.2.position stack (.value result.1)

theorem lookAgrees {B : Type} {next : Option Token → Record B}
    {goesOn : B → Except SyntaxError Expr} {whole : Except SyntaxError Expr}
    (agrees : (next tokens[cursor.position]?).Agrees goesOn whole) :
    ((look tokens cursor).andThen next).Agrees goesOn whole :=
  agrees

/-- From this position on, the calls that fill a frame agree with the reader. -/
def Fills (tokens : List Token) (call : Call) (start : Nat) : Prop :=
  ∀ frame stack (entry : Cursor), start ≤ entry.position → entry.position ≤ tokens.length →
    entry.depth = stack.length + 1 → (call frame.strength entry).Agrees
      (goesOn tokens (frame :: stack)) (entered tokens entry.position frame stack)

theorem Fills.inner (fills : Fills tokens call start) (returns : Returns tokens call)
    (frame : Frame) (inner : frame.encloses = false) (after : start ≤ cursor.position)
    (within : cursor.position ≤ tokens.length) (depth : cursor.depth = stack.length + 1) :
    (call frame.strength cursor).Agrees
      (fun result => goesOn tokens stack (frame.fill result.1, result.2))
      (entered tokens cursor.position frame stack) := by
  refine (fills frame stack cursor after within depth).congr fun result ended => ?_
  exact outcomeFill inner ((returns _ _).value result ended).2

theorem closeAgrees (f : Option NamedFunction) (inside : Expr)
    (stops : Stops 0 tokens[cursor.position]?) :
    (close tokens f inside cursor).Agrees (goesOn tokens stack)
      (outcome tokens cursor.position (Reader.enclosing f :: stack) (.value inside)) := by
  have encloses : (Reader.enclosing f).encloses := by cases f <;> rfl
  apply lookAgrees
  cases here : tokens[cursor.position]? with
  | none =>
      rw [outcomeEnd here]
      simp only [Reader.finish, Frame.complete?, encloses, if_true]
      rfl
  | some token =>
      rw [here] at stops
      rw [outcomeToken here]
      cases token with
      | number _ | pi | answer | function _ | opening => rfl
      | factorial => exact absurd stops (Nat.not_lt_zero _)
      | operator op => exact absurd stops (Nat.not_lt_zero _)
      | closing =>
          simp only [Reader.advance, Reader.afterValue, Frame.close?, encloses, if_true]
          rfl

theorem enclosedAgrees (fills : Fills tokens call start) (returns : Returns tokens call)
    (f : Option NamedFunction) (after : start ≤ cursor.position)
    (within : cursor.position ≤ tokens.length) (depth : cursor.depth = stack.length + 1) :
    (enclosed tokens call f cursor).Agrees (goesOn tokens stack)
      (outcome tokens cursor.position stack (.opened f)) := by
  have strength : (Reader.enclosing f).strength = 0 := by cases f <;> rfl
  apply lookAgrees
  split
  · next closing =>
    rw [outcomeToken closing]
    rfl
  · next apart =>
    have filled := fills (Reader.enclosing f) stack cursor after within depth
    rw [strength, ← outcomeOpened f apart] at filled
    refine filled.andThen fun (inside, reached) ended => ?_
    exact closeAgrees f inside ((returns _ _).value _ ended).2

theorem atomAgrees (fills : Fills tokens call (cursor.position + 1)) (returns : Returns tokens call)
    (depth : cursor.depth = stack.length + 1) :
    (atom tokens call cursor).Agrees (goesOn tokens stack)
      (outcome tokens cursor.position stack .operand) := by
  apply lookAgrees
  cases here : tokens[cursor.position]? with
  | none =>
      rw [outcomeEnd here]
      rfl
  | some token =>
      have within : cursor.next.position ≤ tokens.length :=
        (List.getElem?_eq_some_iff.mp here).1
      rw [outcomeToken here]
      cases token with
      | number _ | pi | answer | factorial | closing => rfl
      | opening => exact enclosedAgrees fills returns none (Nat.le_refl _) within depth
      | function f =>
          apply lookAgrees
          show Record.Agrees _ _ (outcome tokens cursor.next.position stack (.called f))
          cases there : tokens[cursor.next.position]? with
          | none =>
              rw [outcomeEnd there]
              rfl
          | some second =>
              have behind : cursor.next.next.position ≤ tokens.length :=
                (List.getElem?_eq_some_iff.mp there).1
              rw [outcomeToken there]
              by_cases opening : second = .opening
              · subst opening
                exact enclosedAgrees fills returns (some f) (Nat.le_succ _) behind depth
              · have apart : some second ≠ some Token.opening := by simpa using opening
                simp only [Reader.advance, if_neg opening, if_neg apart]
                rfl
      | operator op =>
          cases op with
          | mul | div | pow => rfl
          | add =>
              have kept := fills.inner returns .keep rfl (Nat.le_refl _) within depth
              rw [← outcomePushed] at kept
              exact kept
          | sub =>
              have negated := fills.inner returns .negate rfl (Nat.le_refl _) within depth
              rw [← outcomePushed] at negated
              exact negated.andThen fun _ _ => rfl

/-- The operand on the left grows as the frame below it admits. The induction is on the clock, which
lasts for the tokens that are left. -/
theorem extendAgrees (fills : Fills tokens call start) (returns : Returns tokens call) (left : Expr)
    (after : start ≤ cursor.position) (within : cursor.position ≤ tokens.length)
    (lasts : tokens.length < cursor.position + clock) (depth : cursor.depth = stack.length + 1) :
    (extend tokens call clock (innermost stack) left cursor).Agrees (goesOn tokens stack)
      (outcome tokens cursor.position stack (.value left)) := by
  induction clock generalizing left cursor with
  | zero => exact absurd lasts (Nat.not_lt.mpr within)
  | succ clock inductionHypothesis =>
      have goOn {next : Cursor} (advances : Advances tokens cursor next) (left : Expr) :
          (extend tokens call clock (innermost stack) left next).Agrees (goesOn tokens stack)
            (outcome tokens next.position stack (.value left)) := by
        have forward := advances.forward
        refine inductionHypothesis left (by omega) advances.within (by omega) ?_
        exact advances.depth.trans depth
      apply lookAgrees
      cases here : tokens[cursor.position]? with
      | none => rfl
      | some token =>
          have advances : Advances tokens cursor cursor.next := advancesToken here.symm
          cases token with
          | number _ | pi | answer | function _ | opening | closing => rfl
          | factorial =>
              have grows := goOn advances (.factorial left)
              rw [outcomeToken here]
              simp only [if_neg (Nat.not_lt.mpr (innermostLe stack))]
              exact grows
          | operator op =>
              by_cases strong : op.leftStrength < innermost stack
              · simp only [if_pos strong]
                rfl
              · rw [outcomeOperator here (Nat.not_lt.mp strong)]
                simp only [if_neg strong]
                have filled := fills.inner returns (.operand left op) rfl
                  (Nat.le_succ_of_le after) advances.within depth
                refine filled.andThen fun (right, exit) ended => ?_
                exact goOn (advances.trans ((returns _ _).value _ ended).1) _

theorem workAgrees (fills : Fills tokens call (cursor.position + 1)) (returns : Returns tokens call)
    (shallow : cursor.depth ≤ Frame.depthLimit)
    (lasts : tokens.length < cursor.position + clock + 1)
    (depth : cursor.depth = stack.length + 1) :
    (work tokens call clock (innermost stack) cursor).Agrees (goesOn tokens stack)
      (outcome tokens cursor.position stack .operand) := by
  refine (atomAgrees fills returns depth).andThen fun (left, reached) ended => ?_
  have advances := (atomEnsures returns shallow).value _ ended
  have forward : cursor.position < reached.position := advances.forward
  refine extendAgrees fills returns left forward advances.within (by omega) ?_
  exact advances.depth.trans depth

/-- Below the limit, a call reads the operand of the innermost frame. -/
theorem expressionAgrees (stack : List Frame) {entry : Cursor}
    (fills : Fills tokens (expression tokens clock) (entry.position + 1))
    (shallow : stack.length + 1 ≤ Frame.depthLimit)
    (lasts : tokens.length < entry.position + clock + 1) (depth : entry.depth = stack.length) :
    (expression tokens (clock + 1) (innermost stack) entry).Agrees (goesOn tokens stack)
      (outcome tokens entry.position stack .operand) := by
  have works : (work tokens (expression tokens clock) clock (innermost stack)
      ⟨entry.position, stack.length + 1⟩).Agrees (goesOn tokens stack)
        (outcome tokens entry.position stack .operand) :=
    workAgrees fills (expressionReturns clock) shallow lasts rfl
  rw [expression, depth, if_pos shallow]
  exact works.andThen fun _ _ => rfl

/-- A call opens a deeper one exactly where the reader pushes a frame. The induction is on the
clock, which lasts for the tokens that are left. -/
theorem expressionFills (lasts : tokens.length < start + clock) :
    Fills tokens (expression tokens clock) start := by
  induction clock generalizing start with
  | zero =>
      intro frame stack entry after within _
      exact absurd lasts (Nat.not_lt.mpr (Nat.le_trans after within))
  | succ clock inductionHypothesis =>
      intro frame stack entry after within depth
      rw [entered, Frame.push]
      by_cases shallow : stack.length + 2 ≤ Frame.depthLimit
      · have fills : Fills tokens (expression tokens clock) (entry.position + 1) :=
          inductionHypothesis (by omega)
        rw [if_pos shallow]
        exact expressionAgrees (frame :: stack) fills shallow (by omega) depth
      · rw [if_neg shallow, expression, depth, if_neg shallow]
        rfl

/-- After the first call, the tokens must end. -/
theorem parseAgrees (tokens : List Token) : (parse tokens).Agrees .ok (Expr.ofTokens tokens) := by
  rw [parse, Expr.ofTokens]
  split
  · rfl
  · split
    · rfl
    · have fills : Fills tokens (expression tokens tokens.length) 1 := expressionFills (by omega)
      have reads : (expression tokens (tokens.length + 1) 0 ⟨0, 0⟩).Agrees (goesOn tokens [])
          (outcome tokens 0 [] .operand) :=
        expressionAgrees [] fills (by decide) (by simp) rfl
      refine reads.andThen fun result ended => ?_
      obtain ⟨expr, exit⟩ := result
      have stops := ((expressionReturns _ _ _).value _ ended).2
      dsimp only [goesOn] at stops ⊢
      cases here : tokens[exit.position]? with
      | none =>
          rw [outcomeEnd here]
          rfl
      | some token =>
          rw [here] at stops
          rw [outcomeToken here]
          cases token with
          | number _ | pi | answer | function _ | opening | closing => rfl
          | factorial => exact absurd stops (Nat.not_lt_zero _)
          | operator op => exact absurd stops (Nat.not_lt_zero _)

/-- The calls end on every list of tokens, and they end as the frames do. -/
theorem parseEnding (tokens : List Token) :
    (parse tokens).ending = some (Expr.ofTokens tokens) :=
  (parseAgrees tokens).ending

end Calls

end Descent

end Calculator
