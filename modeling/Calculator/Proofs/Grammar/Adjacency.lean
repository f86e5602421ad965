/-
This file proves that after the products only two adjacent numbers are a token out of place.
-/

import Calculator.Proofs.Grammar.Juxtaposition
import Calculator.Proofs.Grammar.Viability
import Mathlib.Data.List.Chain

namespace Calculator

namespace Token

/-- Between two of the tokens with every product no product is missing. -/
theorem productsAfterChain (previous : Token) (tokens : List Token) :
    (previous :: productsAfter previous tokens).IsChain
      fun left right => juxtaposed left right = false := by
  induction tokens generalizing previous with
  | nil => exact .singleton previous
  | cons token rest inductionHypothesis =>
      rw [productsAfter]
      split
      · have before : juxtaposed previous (.operator .mul) = false := by
          simp [juxtaposed, startsValue]
        have after : juxtaposed (.operator .mul) token = false := by simp [juxtaposed, endsValue]
        exact .cons_cons before (.cons_cons after (inductionHypothesis token))
      · next apart =>
        exact .cons_cons (Bool.eq_false_iff.mpr apart) (inductionHypothesis token)

theorem withProductsChain (tokens : List Token) :
    (withProducts tokens).IsChain fun left right => juxtaposed left right = false := by
  cases tokens with
  | nil => exact .nil
  | cons token rest => exact productsAfterChain token rest

/-- Two values without a product between them are two numbers. -/
theorem numbersOfApart {left right : Token} (ends : left.endsValue) (starts : right.startsValue)
    (apart : juxtaposed left right = false) : ∃ x y, left = .number x ∧ right = .number y := by
  simp only [juxtaposed, ends, starts, Bool.true_and, Bool.not_eq_false', Bool.and_eq_true] at apart
  cases left with
  | number x =>
      cases right with
      | number y => exact ⟨x, y, rfl, rfl⟩
      | pi | answer | function _ | operator _ | factorial | opening | closing => cases apart.2
  | pi | answer | function _ | operator _ | factorial | opening | closing => cases apart.1

/-- Two adjacent numbers stay adjacent, because no product is found between them. -/
theorem withProductsNumbers (before : List Token) (x y : Float) (after : List Token) :
    ∃ front rest, withProducts (before ++ .number x :: .number y :: after) =
      front ++ .number x :: .number y :: rest := by
  have numbers : juxtaposed (.number x) (.number y) = false := by simp [juxtaposed, isNumber]
  rw [← productsAfterOpening, productsAppend, productsAfter, productsAfter, numbers]
  split
  · exact ⟨productsAfter .opening before ++ [.operator .mul], productsAfter (.number y) after,
      by simp⟩
  · exact ⟨productsAfter .opening before, productsAfter (.number y) after, by simp⟩

end Token

/-- The last token of an operand ends a value. -/
theorem Derives.ends {layer : Layer} {tokens : List Token} {expr : Expr} {nesting : Nat}
    (derives : Derives layer tokens expr nesting) :
    ∃ front last, tokens = front ++ [last] ∧ last.endsValue := by
  induction derives with
  | number x => exact ⟨[], .number x, rfl, rfl⟩
  | pi => exact ⟨[], .pi, rfl, rfl⟩
  | answer => exact ⟨[], .answer, rfl, rfl⟩
  | @group inside _ _ _ _ => exact ⟨.opening :: inside, .closing, rfl, rfl⟩
  | @call f inside _ _ _ _ => exact ⟨.function f :: .opening :: inside, .closing, rfl, rfl⟩
  | factorial _ _ => exact ⟨_, .factorial, rfl, rfl⟩
  | negate _ inside =>
      obtain ⟨front, last, rfl, ends⟩ := inside
      exact ⟨.operator .sub :: front, last, rfl, ends⟩
  | keep _ inside =>
      obtain ⟨front, last, rfl, ends⟩ := inside
      exact ⟨.operator .add :: front, last, rfl, ends⟩
  | binary op _ _ _ inside =>
      obtain ⟨front, last, rfl, ends⟩ := inside
      exact ⟨_, last, (List.append_assoc _ (.operator op :: front) [last]).symm, ends⟩
  | loosen _ inside => exact inside

namespace Reader

variable {reader reached : Reader} {tokens : List Token} {token : Token} {position : Nat}

/-- A value that the reader holds ends with the last token. -/
theorem Follows.ends {expr : Expr} (follows : reader.Follows tokens)
    (value : reader.phase = .value expr) :
    ∃ front last, tokens = front ++ [last] ∧ last.endsValue := by
  obtain ⟨_, state⟩ := follows
  rw [value] at state
  obtain ⟨before, inside, _, rfl, _, _, derives, _⟩ := state
  obtain ⟨front, last, rfl, ends⟩ := derives.ends
  exact ⟨before ++ front, last, (List.append_assoc before front [last]).symm, ends⟩

/-- Only after a value a token is out of place, and this token starts another value. -/
theorem stepUnexpected (stopped : reader.step token = .error (.unexpectedToken position)) :
    position = reader.position ∧ token.startsValue ∧ ∃ expr, reader.phase = .value expr := by
  obtain ⟨place, stack, phase⟩ := reader
  simp only [step] at stopped
  split at stopped
  case h_1 => cases stopped
  case h_2 cause refused =>
  cases stopped
  cases phase with
  | operand => cases operandRefused refused (by simp)
  | called f =>
      simp only [advance] at refused
      split at refused <;> cases refused
  | opened f =>
      simp only [advance] at refused
      split at refused
      · cases f <;> cases refused
      · split at refused
        · cases operandRefused refused (by simp)
        · next full =>
          cases refused
          cases pushRefused full
  | value expr =>
      cases token with
      | factorial => cases refused
      | operator op => cases frameRefused refused
      | closing =>
          simp only [advance, afterValue] at refused
          split at refused <;> cases refused
      | number _ | pi | answer | function _ | opening =>
          cases refused
          exact ⟨rfl, rfl, expr, rfl⟩

theorem finishExpected : reader.finish ≠ .error (.unexpectedToken position) := by
  obtain ⟨place, stack, phase⟩ := reader
  intro stopped
  cases phase with
  | operand | called f => cases stopped
  | opened f =>
      simp only [finish] at stopped
      split at stopped
      · cases stopped
      · next full =>
        cases stopped
        cases pushRefused full
  | value expr =>
      simp only [finish] at stopped
      split at stopped <;> cases stopped

/-- A number is a whole operand. -/
theorem stepNumber {x : Float} (taken : reader.step (.number x) = .ok reached) :
    ∃ expr, reached.phase = .value expr := by
  obtain ⟨place, stack, phase⟩ := reader
  simp only [step] at taken
  split at taken
  case h_2 => cases taken
  case h_1 above after advanced =>
  cases taken
  cases phase with
  | operand =>
      cases advanced
      exact ⟨_, rfl⟩
  | called f => cases advanced
  | opened f =>
      simp only [advance] at advanced
      split at advanced
      · cases advanced
      · split at advanced
        · cases advanced
          exact ⟨_, rfl⟩
        · cases advanced
  | value expr => cases advanced

/-- The reader refuses the second one of two adjacent numbers if it has not stopped before. -/
theorem runNumbers (reader : Reader) (front : List Token) (x y : Float) (rest : List Token) :
    ∃ cause, reader.run (front ++ .number x :: .number y :: rest) = .error cause := by
  rw [runAppend]
  split
  · next middle _ =>
    cases first : middle.step (.number x) with
    | error cause => exact ⟨cause, by simp only [run, first]⟩
    | ok next =>
        obtain ⟨expr, value⟩ := stepNumber first
        refine ⟨.unexpectedToken next.position, ?_⟩
        have second : next.step (.number y) = .error (.unexpectedToken next.position) := by
          rw [step, value]
          rfl
        simp only [run, first, second]
  · next cause _ => exact ⟨cause, rfl⟩

end Reader

namespace Expr

/-- A token out of place starts a value, and the token before it ends one. -/
theorem unexpectedBetween {tokens : List Token} {position : Nat}
    (refused : ofTokens tokens = .error (.unexpectedToken position)) :
    ∃ front left right rest, tokens = front ++ left :: right :: rest ∧
      position = front.length + 1 ∧ left.endsValue ∧ right.startsValue := by
  rw [ofTokens] at refused
  split at refused
  · cases refused
  · split at refused
    · cases refused
    · split at refused
      · exact absurd refused Reader.finishExpected
      · next cause run =>
        cases refused
        obtain ⟨before, token, rest, reached, rfl, taken, stopped⟩ := Reader.runRefused run
        obtain ⟨place, starts, expr, value⟩ := Reader.stepUnexpected stopped
        have follows : reached.Follows before := Reader.followsRun Reader.followsStart taken
        obtain ⟨front, last, rfl, ends⟩ := follows.ends value
        have counted := Reader.runPosition taken
        rw [Reader.start, Nat.zero_add, List.length_append, List.length_singleton] at counted
        exact ⟨front, last, token, rest, by simp, place.trans counted, ends, starts⟩

/-- After the products a token out of place is a number after another one, and two adjacent numbers
are always refused. -/
theorem ofTokensNumbers (tokens : List Token) :
    (∀ position, ofTokens (Token.withProducts tokens) = .error (.unexpectedToken position) →
      1 ≤ position ∧ position < (Token.withProducts tokens).length ∧
        ∃ x y, (Token.withProducts tokens)[position - 1]? = some (.number x) ∧
          (Token.withProducts tokens)[position]? = some (.number y)) ∧
    ∀ before x y after, tokens = before ++ .number x :: .number y :: after →
      ∃ cause, ofTokens (Token.withProducts tokens) = .error cause := by
  constructor
  · intro position refused
    obtain ⟨front, left, right, rest, split, rfl, ends, starts⟩ := unexpectedBetween refused
    have chain := Token.withProductsChain tokens
    rw [split, List.isChain_append_cons_cons] at chain
    obtain ⟨x, y, rfl, rfl⟩ := Token.numbersOfApart ends starts chain.2.1
    rw [split]
    exact ⟨by omega, by simp, x, y, by simp, by simp⟩
  · rintro before x y after rfl
    obtain ⟨front, rest, split⟩ := Token.withProductsNumbers before x y after
    obtain ⟨cause, refused⟩ := Reader.runNumbers Reader.start front x y rest
    rw [split, ofTokens, refused]
    split
    · exact ⟨_, rfl⟩
    · split <;> exact ⟨_, rfl⟩

/-- The new sign of a product moves the place of the second number. -/
theorem ofTokensNumbersGroup :
    let tokens : List Token := [.number 2, .opening, .number 1, .number 3, .closing]
    ofTokens (Token.withProducts tokens) = .error (.unexpectedToken 4) ∧
      (∃ x y, (Token.withProducts tokens)[3]? = some (.number x) ∧
        (Token.withProducts tokens)[4]? = some (.number y)) ∧
      ∃ cause, ofTokens (Token.withProducts tokens) = .error cause := by
  intro tokens
  have refused : ofTokens (Token.withProducts tokens) = .error (.unexpectedToken 4) := rfl
  obtain ⟨between, adjacent⟩ := ofTokensNumbers tokens
  exact ⟨refused, (between 4 refused).2.2, adjacent [.number 2, .opening] 1 3 [.closing] rfl⟩

end Expr

end Calculator
