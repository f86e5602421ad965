/-
This file proves where products are found between the tokens of an expression.
-/

import Calculator.Proofs.Grammar.Derivation
import Calculator.Token.Juxtaposition

namespace Calculator

namespace Token

theorem productsAppend (previous : Token) (first second : List Token) :
    productsAfter previous (first ++ second) =
      productsAfter previous first ++ productsAfter (first.getLastD previous) second := by
  induction first generalizing previous with
  | nil => rfl
  | cons token rest inductionHypothesis =>
      simp only [List.cons_append, productsAfter, inductionHypothesis, List.getLastD_cons]
      split <;> rfl

/-- No product starts where no value ends. -/
theorem productsAfterOpening (tokens : List Token) :
    productsAfter .opening tokens = withProducts tokens := by
  cases tokens with
  | nil => rfl
  | cons token rest => rfl

/-- A closing parenthesis attracts the same products as the answer. -/
theorem productsAfterClosing (tokens : List Token) :
    productsAfter .closing tokens = productsAfter .answer tokens := by
  cases tokens with
  | nil => rfl
  | cons token rest => rfl

/-- Whatever ignores the sign of a product finds nothing new among the found products. -/
theorem filterMapProductsAfter {A : Type} {f : Token → Option A}
    (ignored : f (.operator .mul) = none) (previous : Token) (tokens : List Token) :
    (productsAfter previous tokens).filterMap f = tokens.filterMap f := by
  induction tokens generalizing previous with
  | nil => rfl
  | cons token rest inductionHypothesis =>
      rw [productsAfter]
      split
      · rw [List.filterMap_cons_none ignored, List.filterMap_cons, List.filterMap_cons,
          inductionHypothesis]
      · rw [List.filterMap_cons, List.filterMap_cons, inductionHypothesis]

theorem filterMapWithProducts {A : Type} {f : Token → Option A}
    (ignored : f (.operator .mul) = none) (tokens : List Token) :
    (withProducts tokens).filterMap f = tokens.filterMap f := by
  cases tokens with
  | nil => rfl
  | cons token rest =>
      rw [withProducts, List.filterMap_cons, List.filterMap_cons, filterMapProductsAfter ignored]

theorem juxtaposedClosing (previous : Token) : juxtaposed previous .closing = false := by
  simp [juxtaposed, startsValue]

/-- An opening parenthesis attracts the same product as the answer. -/
theorem juxtaposedOpening (previous : Token) :
    juxtaposed previous .opening = juxtaposed previous .answer := by
  simp [juxtaposed, startsValue, isNumber]

section

variable {previous token : Token} {tokens : List Token}

/-- No product is found after a token that ends no value. -/
theorem productsOpened (opens : previous.endsValue = false) (token : Token) (rest : List Token) :
    productsAfter previous (token :: rest) = token :: productsAfter token rest := by
  simp [productsAfter, juxtaposed, opens]

/-- No product is found before a token that starts no value. -/
theorem productsFollowed (same : productsAfter previous tokens = tokens)
    (follows : token.startsValue = false) (rest : List Token) :
    productsAfter previous (tokens ++ token :: rest) =
      tokens ++ token :: productsAfter token rest := by
  rw [productsAppend, same]
  simp [productsAfter, juxtaposed, follows]

end

end Token

namespace Derives

open Token

variable {layer : Layer} {tokens : List Token} {expr : Expr} {nesting : Nat}

/-- Between the tokens of an expression no product is missing. -/
theorem products (derives : Derives layer tokens expr nesting) {previous : Token}
    (opens : previous.endsValue = false) : productsAfter previous tokens = tokens := by
  induction derives generalizing previous with
  | number _ | pi | answer => exact productsOpened opens _ _
  | group _ inside =>
      rw [productsOpened opens, productsFollowed (inside rfl) rfl]
      rfl
  | call f _ inside =>
      rw [productsOpened opens, productsOpened rfl, productsFollowed (inside rfl) rfl]
      rfl
  | factorial _ operand =>
      rw [productsFollowed (operand opens) rfl]
      rfl
  | negate _ operand | keep _ operand => rw [productsOpened opens, operand rfl]
  | binary op _ _ left right => rw [productsFollowed (left opens) rfl, right rfl]
  | loosen _ inside => exact inside opens

theorem withProducts (derives : Derives layer tokens expr nesting) :
    withProducts tokens = tokens := by
  rw [← productsAfterOpening, derives.products rfl]

end Derives

end Calculator
