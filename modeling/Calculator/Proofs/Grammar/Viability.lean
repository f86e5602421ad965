/-
This file proves that the reader refuses the first token that no expression has in its place.
-/

import Calculator.Proofs.Grammar.Completeness
import Calculator.Proofs.Grammar.Soundness

namespace Calculator

/-- Some expression starts with these tokens. -/
def Viable (tokens : List Token) : Prop :=
  ∃ rest expr nesting, Derives .sum (tokens ++ rest) expr nesting

/-- The tokens start an expression, but they are none. -/
def Unfinished (tokens : List Token) : Prop :=
  Viable tokens ∧ ∀ expr nesting, ¬Derives .sum tokens expr nesting

/-- The tokens before this position start an expression, but not together with the token there. -/
structure Blocked (tokens : List Token) (position : Nat) : Prop where
  within : position < tokens.length
  before : Viable (tokens.take position)
  after : ¬Viable (tokens.take (position + 1))

/-- A cause tells the first token that no expression has in its place, or it tells that the tokens
end too early. The limits and the characters of the text are no such cause. -/
def Earliest (tokens : List Token) : SyntaxError → Prop
  | .missingOperand position =>
    Blocked tokens position ∨ (position = tokens.length ∧ Unfinished tokens)
  | .unexpectedToken position | .unopenedParenthesis position => Blocked tokens position
  | .emptyParentheses => ∃ before after, tokens = before ++ .opening :: .closing :: after ∧
      Blocked tokens (before.length + 1) ∧ ∀ f, .function f ∉ before.getLast?
  | .emptyCall f =>
    ∃ before after, tokens = before ++ .function f :: .opening :: .closing :: after ∧
      Blocked tokens (before.length + 2)
  | .missingParenthesis f =>
    (∃ before token after, tokens = before ++ .function f :: token :: after ∧
      token ≠ .opening ∧ Blocked tokens (before.length + 1)) ∨
    (∃ before, tokens = before ++ [.function f] ∧ Unfinished tokens)
  | .unclosedParenthesis => Unfinished tokens
  | .tooDeep | .emptyInput | .tooLong _ | .unexpectedCharacter _ _ | .invalidNumber _ => False

section Completion

variable {tokens inside : List Token} {stack : List Frame} {layer : Layer} {expr : Expr}
  {nesting : Nat}

theorem Viable.front (rest : List Token) (viable : Viable (tokens ++ rest)) : Viable tokens := by
  obtain ⟨more, expr, nesting, derives⟩ := viable
  rw [List.append_assoc] at derives
  exact ⟨rest ++ more, expr, nesting, derives⟩

/-- Every frame that waits for an operand can be completed after it. The proof follows the frames
from the innermost one. -/
theorem Pending.viable (pending : Pending stack tokens) (fits : layer.Fits stack)
    (derives : Derives layer inside expr nesting) : Viable (tokens ++ inside) := by
  induction pending generalizing layer inside expr nesting with
  | start =>
      have sum := derives.widen .sum (by cases layer <;> decide)
      exact ⟨[], expr, nesting, by simpa using sum⟩
  | group _ inductionHypothesis =>
      have group := (derives.widen .sum fits).group
      have viable := inductionHypothesis ((Layer.fitsSigned _).tighten (by decide)) group
      exact Viable.front [.closing] (by simpa using viable)
  | call f _ inductionHypothesis =>
      have call := (derives.widen .sum fits).call f
      have viable := inductionHypothesis ((Layer.fitsSigned _).tighten (by decide)) call
      exact Viable.front [.closing] (by simpa using viable)
  | negate _ inductionHypothesis =>
      have viable := inductionHypothesis (Layer.fitsSigned _) (derives.widen .signed fits).negate
      simpa using viable
  | keep _ inductionHypothesis =>
      have viable := inductionHypothesis (Layer.fitsSigned _) (derives.widen .signed fits).keep
      simpa using viable
  | operand op _ fitsLeft left _ inductionHypothesis =>
      have viable := inductionHypothesis (Operator.fitsLayer fitsLeft)
        (left.binary op (derives.widen op.right fits))
      simpa using viable

/-- The answer is an operand of every frame. -/
theorem Pending.started (pending : Pending stack tokens) : Viable tokens :=
  (pending.viable ((Layer.fitsSigned stack).tighten (by decide)) Derives.answer).front [.answer]

/-- A function does not wait for an operand before its parenthesis. -/
theorem Pending.last (pending : Pending stack tokens) (f : NamedFunction) :
    .function f ∉ tokens.getLast? := by
  cases pending <;> simp

end Completion

namespace Reader

variable {reader reached : Reader} {tokens before after : List Token} {token : Token}
  {cause : SyntaxError}

/-- Whatever the reader has read starts an expression. -/
theorem Follows.viable (follows : reader.Follows tokens) : Viable tokens := by
  obtain ⟨position, stack, phase⟩ := reader
  obtain ⟨_, state⟩ := follows
  cases phase with
  | operand => exact state.started
  | called f =>
      obtain ⟨before, rfl, pending⟩ := state
      have call := (Derives.answer.widen .sum (by decide)).call f
      have viable := pending.viable ((Layer.fitsSigned stack).tighten (by decide)) call
      exact Viable.front [.opening, .answer, .closing] (by simpa using viable)
  | opened f => exact state.started
  | value expr =>
      obtain ⟨before, inside, _, rfl, pending, fits, derives, _⟩ := state
      exact pending.viable fits derives

/-- The reader refuses no expression but for its nesting. -/
theorem refusedDerives (refused : start.run tokens = .error cause) (shallow : cause ≠ .tooDeep)
    {expr : Expr} {nesting : Nat} : ¬Derives .sum tokens expr nesting := by
  intro derives
  obtain ⟨within, beyond⟩ := readsDerived derives 0 [] trivial (by decide)
  rw [start] at refused
  by_cases deep : nesting ≤ Frame.depthLimit
  · obtain ⟨_, _, reached, _⟩ := within deep
    rw [refused] at reached
    cases reached
  · rw [beyond (Nat.lt_of_not_le deep)] at refused
    cases refused
    exact shallow rfl

theorem refusedViable (refused : start.run tokens = .error cause) (shallow : cause ≠ .tooDeep) :
    ¬Viable tokens := by
  rintro ⟨rest, expr, nesting, derives⟩
  exact refusedDerives (runStops refused rest) shallow derives

theorem runPosition (taken : reader.run tokens = .ok reached) :
    reached.position = reader.position + tokens.length := by
  induction tokens generalizing reader with
  | nil =>
      cases taken
      rfl
  | cons token rest inductionHypothesis =>
      simp only [run] at taken
      split at taken
      · next next stepped =>
        have moved : next.position = reader.position + 1 := by
          rw [step] at stepped
          split at stepped
          · cases stepped
            rfl
          · cases stepped
        rw [inductionHypothesis taken, moved, List.length_cons]
        omega
      · cases taken

/-- A refused run stops at one token. -/
theorem runRefused (refused : reader.run tokens = .error cause) :
    ∃ before token after reached, tokens = before ++ token :: after ∧
      reader.run before = .ok reached ∧ reached.step token = .error cause := by
  induction tokens generalizing reader with
  | nil => cases refused
  | cons token rest inductionHypothesis =>
      cases stepped : reader.step token with
      | error other =>
          simp only [run, stepped] at refused
          cases refused
          exact ⟨[], token, rest, reader, rfl, rfl, stepped⟩
      | ok next =>
          simp only [run, stepped] at refused
          obtain ⟨before, last, after, reached, rfl, taken, stopped⟩ :=
            inductionHypothesis refused
          refine ⟨token :: before, last, after, reached, rfl, ?_, stopped⟩
          simp only [run, stepped, taken]

/-- The token that stops a run cannot stand in its place. -/
theorem blocked (taken : start.run before = .ok reached)
    (stopped : reached.step token = .error cause) (shallow : cause ≠ .tooDeep) (after : List Token) :
    Blocked (before ++ token :: after) before.length := by
  have follows : reached.Follows before := followsRun followsStart taken
  have refused : start.run (before ++ [token]) = .error cause := by
    rw [runThen taken]
    simp only [run, stopped]
  refine ⟨by simp, ?_, ?_⟩
  · rw [List.take_left]
    exact follows.viable
  · rw [List.take_length_add_append]
    exact refusedViable refused shallow

section Causes

variable {position : Nat} {stack : List Frame} {expr : Expr}

/-- Only the limit of the nesting can stop a frame. -/
theorem pushRefused {frame : Frame} (refused : Frame.push frame stack = .error cause) :
    cause = .tooDeep := by
  by_cases room : stack.length + 2 ≤ Frame.depthLimit
  · rw [Frame.pushWithin room] at refused
    cases refused
  · rw [Frame.pushBeyond (Nat.lt_of_not_le room)] at refused
    cases refused
    rfl

theorem frameRefused {frame : Frame}
    (refused : (Frame.push frame stack).map (fun stack => (stack, Phase.operand)) = .error cause) :
    cause = .tooDeep := by
  cases pushed : Frame.push frame stack with
  | ok _ =>
      rw [pushed] at refused
      cases refused
  | error other =>
      rw [pushed] at refused
      cases refused
      exact pushRefused pushed

theorem operandRefused (refused : operand position stack token = .error cause)
    (shallow : cause ≠ .tooDeep) : cause = .missingOperand position := by
  cases token with
  | number _ | pi | answer | function _ | opening => cases refused
  | factorial | closing =>
      cases refused
      rfl
  | operator op =>
      cases op with
      | add | sub => exact absurd (frameRefused refused) shallow
      | mul | div | pow =>
          cases refused
          rfl

theorem afterValueRefused (refused : afterValue position stack expr token = .error cause)
    (shallow : cause ≠ .tooDeep) :
    cause = .unopenedParenthesis position ∨ cause = .unexpectedToken position := by
  cases token with
  | factorial => cases refused
  | operator op => exact absurd (frameRefused refused) shallow
  | closing =>
      simp only [afterValue] at refused
      split at refused
      · cases refused
      · cases refused
        exact .inl rfl
  | number _ | pi | answer | function _ | opening =>
      cases refused
      exact .inr rfl

/-- The cause of a refused token tells where that token stands. -/
theorem earliestStep (follows : reached.Follows before) (place : reached.position = before.length)
    (stopped : reached.step token = .error cause) (shallow : cause ≠ .tooDeep)
    (stands : Blocked (before ++ token :: after) before.length) :
    Earliest (before ++ token :: after) cause := by
  obtain ⟨position, stack, phase⟩ := reached
  obtain ⟨_, state⟩ := follows
  change position = before.length at place
  subst place
  simp only [step] at stopped
  split at stopped
  case h_1 => cases stopped
  case h_2 other refused =>
  cases stopped
  cases phase with
  | operand =>
      rw [operandRefused refused shallow]
      exact .inl stands
  | called f =>
      obtain ⟨front, rfl, _⟩ := state
      simp only [advance] at refused
      split at refused
      · cases refused
      · next apart =>
        cases refused
        exact .inl ⟨front, token, after, by simp, apart, by simpa using stands⟩
  | opened f =>
      simp only [advance] at refused
      split at refused
      · next closing =>
        subst closing
        cases refused
        -- The frames tell which tokens stand before the empty inside.
        cases f with
        | none =>
            cases state with
            | @group _ front pending =>
                exact ⟨front, after, by simp, by simpa using stands, pending.last⟩
        | some f =>
            cases state with
            | @call _ _ front pending => exact ⟨front, after, by simp, by simpa using stands⟩
      · split at refused
        · rw [operandRefused refused shallow]
          exact .inl stands
        · next full =>
          cases refused
          exact absurd (pushRefused full) shallow
  | value expr =>
      rcases afterValueRefused refused shallow with rfl | rfl
      · exact stands
      · exact stands

/-- The cause of a refused end tells that the tokens start an expression. -/
theorem earliestFinish (follows : reached.Follows tokens)
    (place : reached.position = tokens.length) (stopped : reached.finish = .error cause)
    (shallow : cause ≠ .tooDeep)
    (underived : ∀ expr nesting, ¬Derives .sum tokens expr nesting) : Earliest tokens cause := by
  have unfinished : Unfinished tokens := ⟨follows.viable, underived⟩
  obtain ⟨position, stack, phase⟩ := reached
  obtain ⟨_, state⟩ := follows
  change position = tokens.length at place
  simp only [finish] at stopped
  cases phase with
  | operand =>
      cases stopped
      exact .inr ⟨place, unfinished⟩
  | called f =>
      cases stopped
      obtain ⟨front, rfl, _⟩ := state
      exact .inr ⟨front, rfl, unfinished⟩
  | opened f =>
      simp only at stopped
      split at stopped
      · cases stopped
        exact .inr ⟨place, unfinished⟩
      · next full =>
        cases stopped
        exact absurd (pushRefused full) shallow
  | value expr =>
      simp only at stopped
      split at stopped
      · cases stopped
      · cases stopped
        exact unfinished

end Causes

end Reader

namespace Expr

variable {tokens : List Token} {cause : SyntaxError}

/-- A list that is refused for another cause than its nesting is derived by no tree. -/
theorem underivedOfTokens (short : tokens.length ≤ tokenLimit)
    (refused : ofTokens tokens = .error cause) (shallow : cause ≠ .tooDeep) (expr : Expr)
    (nesting : Nat) : ¬Derives .sum tokens expr nesting := by
  intro derives
  by_cases deep : nesting ≤ Frame.depthLimit
  · rw [ofTokensShallow derives short deep] at refused
    cases refused
  · rw [ofTokensDeep derives short (Nat.lt_of_not_le deep)] at refused
    cases refused
    exact shallow rfl

/-- The reader refuses the first token that no expression has in its place, or it refuses the end of
tokens that start an expression. The cause tells which of the two it is, and where. -/
theorem ofTokensEarliest (tokens : List Token) (cause : SyntaxError) (present : tokens ≠ [])
    (short : tokens.length ≤ 1024) (shallow : cause ≠ .tooDeep)
    (refused : ofTokens tokens = .error cause) : Earliest tokens cause := by
  have underived := underivedOfTokens short refused shallow
  have within : ¬tokenLimit < tokens.length := Nat.not_lt.mpr short
  rw [ofTokens, if_neg (by simpa using present), if_neg within] at refused
  cases run : Reader.start.run tokens with
  | ok reached =>
      rw [run] at refused
      have place := Reader.runPosition run
      rw [Reader.start, Nat.zero_add] at place
      exact Reader.earliestFinish (Reader.followsRun Reader.followsStart run) place refused shallow
        underived
  | error other =>
      rw [run] at refused
      cases refused
      obtain ⟨before, token, after, reached, rfl, taken, stopped⟩ := Reader.runRefused run
      have place := Reader.runPosition taken
      rw [Reader.start, Nat.zero_add] at place
      exact Reader.earliestStep (Reader.followsRun Reader.followsStart taken) place stopped shallow
        (Reader.blocked taken stopped shallow after)

/-- The closing parenthesis of an empty call is the first token out of place. -/
theorem ofTokensEarliestCall :
    ofTokens [.function (.angle .sin), .opening, .closing] = .error (.emptyCall (.angle .sin)) ∧
      Earliest [.function (.angle .sin), .opening, .closing] (.emptyCall (.angle .sin)) := by
  have refused : ofTokens [.function (.angle .sin), .opening, .closing] =
      .error (.emptyCall (.angle .sin)) := rfl
  exact ⟨refused, ofTokensEarliest _ _ (by decide) (by decide) (by decide) refused⟩

end Expr

end Calculator
