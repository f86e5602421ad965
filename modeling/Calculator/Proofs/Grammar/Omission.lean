/-
This file proves that the signs of products between values may be left out.
-/

import Calculator.Proofs.Grammar.Juxtaposition
import Calculator.Proofs.Grammar.Soundness

namespace Calculator

namespace Token

/-- The second list leaves out product signs of the first list, each between two values. -/
inductive Omits : List Token → List Token → Prop where
  | nil : Omits [] []
  | keep (token : Token) {tokens shorter : List Token} :
      Omits tokens shorter → Omits (token :: tokens) (token :: shorter)
  | leave {left right : Token} {tokens shorter : List Token} : juxtaposed left right →
      Omits (right :: tokens) shorter →
      Omits (left :: .operator .mul :: right :: tokens) (left :: shorter)

/-- The flag of a token says that the token is a new sign. -/
def insertionsAfter (previous : Token) : List Token → List (Token × Bool)
  | [] => []
  | token :: rest =>
    if juxtaposed previous token then
      (.operator .mul, true) :: (token, false) :: insertionsAfter token rest
    else (token, false) :: insertionsAfter token rest

/-- These are the tokens with every product, and the flags tell the new signs from the old
tokens. -/
def insertions : List Token → List (Token × Bool)
  | [] => []
  | token :: rest => (token, false) :: insertionsAfter token rest

section Omission

variable {tokens shorter : List Token}

/-- A sign that was left out is found again between its two values. -/
theorem Omits.products (omits : Omits tokens shorter) (previous : Token) :
    productsAfter previous shorter = productsAfter previous tokens := by
  induction omits generalizing previous with
  | nil => rfl
  | keep token _ inductionHypothesis => simp only [productsAfter, inductionHypothesis]
  | @leave left right tokens shorter between _ inductionHypothesis =>
      have found : productsAfter left shorter =
          productsAfter left (.operator .mul :: right :: tokens) := by
        have sign : juxtaposed left (.operator .mul) = false := by simp [juxtaposed, startsValue]
        have after : juxtaposed (.operator .mul) right = false := rfl
        rw [inductionHypothesis]
        simp only [productsAfter, between, sign, after, if_true, Bool.false_eq_true, if_false]
      rw [productsAfter, productsAfter, found]

theorem Omits.withProducts (omits : Omits tokens shorter) :
    withProducts shorter = withProducts tokens := by
  rw [← productsAfterOpening, omits.products, productsAfterOpening]

theorem omitsProductsAfter (previous : Token) (tokens : List Token) :
    Omits (previous :: productsAfter previous tokens) (previous :: tokens) := by
  induction tokens generalizing previous with
  | nil => exact .keep previous .nil
  | cons token rest inductionHypothesis =>
      by_cases between : juxtaposed previous token
      · simp only [productsAfter, between, if_true]
        exact .leave between (inductionHypothesis token)
      · simp only [productsAfter, between, Bool.false_eq_true, if_false]
        exact .keep previous (inductionHypothesis token)

/-- Every new sign stands between two values. -/
theorem omitsWithProducts (tokens : List Token) : Omits (Token.withProducts tokens) tokens := by
  cases tokens with
  | nil => exact .nil
  | cons token rest => exact omitsProductsAfter token rest

end Omission

section Insertion

theorem insertionsAfterAll (previous : Token) (tokens : List Token) :
    (insertionsAfter previous tokens).map Prod.fst = productsAfter previous tokens := by
  induction tokens generalizing previous with
  | nil => rfl
  | cons token rest inductionHypothesis =>
      simp only [insertionsAfter, productsAfter]
      split <;> simp [inductionHypothesis]

theorem insertionsAfterOld (previous : Token) (tokens : List Token) :
    ((insertionsAfter previous tokens).filter fun entry => !entry.2).map Prod.fst = tokens := by
  induction tokens generalizing previous with
  | nil => rfl
  | cons token rest inductionHypothesis =>
      simp only [insertionsAfter]
      split <;> simp [inductionHypothesis]

theorem insertionsAll (tokens : List Token) :
    (insertions tokens).map Prod.fst = withProducts tokens := by
  cases tokens with
  | nil => rfl
  | cons token rest => simp [insertions, withProducts, insertionsAfterAll]

theorem insertionsOld (tokens : List Token) :
    ((insertions tokens).filter fun entry => !entry.2).map Prod.fst = tokens := by
  cases tokens with
  | nil => rfl
  | cons token rest => simp [insertions, insertionsAfterOld]

theorem insertionsAfterNew {previous : Token} {tokens : List Token} {entry : Token × Bool}
    (member : entry ∈ insertionsAfter previous tokens) (new : entry.2) :
    entry.1 = .operator .mul := by
  induction tokens generalizing previous with
  | nil => cases member
  | cons token rest inductionHypothesis =>
      have later : entry ∈ insertionsAfter token rest ∨ entry.1 = .operator .mul := by
        simp only [insertionsAfter] at member
        split at member
        · rcases List.mem_cons.mp member with rfl | member
          · exact .inr rfl
          · rcases List.mem_cons.mp member with rfl | member
            · cases new
            · exact .inl member
        · rcases List.mem_cons.mp member with rfl | member
          · cases new
          · exact .inl member
      exact later.elim inductionHypothesis id

theorem insertionsNew {tokens : List Token} (entry : Token × Bool)
    (member : entry ∈ insertions tokens) (new : entry.2) : entry.1 = .operator .mul := by
  cases tokens with
  | nil => cases member
  | cons token rest =>
      rcases List.mem_cons.mp member with rfl | member
      · cases new
      · exact insertionsAfterNew member new

end Insertion

/-- A list with a tree has the signs of all its products. A sign that was left out between two values
is found again, and the list then has its old tree. The signs are found only once, and the tokens
without the new signs are the old tokens. -/
theorem withProductsOmits (tokens : List Token) :
    (∀ expr, Expr.ofTokens tokens = .ok expr → withProducts tokens = tokens) ∧
    (∀ shorter, Omits tokens shorter → withProducts shorter = withProducts tokens ∧
      ∀ expr, Expr.ofTokens tokens = .ok expr →
        Expr.ofTokens (withProducts shorter) = .ok expr) ∧
    withProducts (withProducts tokens) = withProducts tokens ∧
    (insertions tokens).map Prod.fst = withProducts tokens ∧
    ((insertions tokens).filter fun entry => !entry.2).map Prod.fst = tokens ∧
    ∀ entry ∈ insertions tokens, entry.2 → entry.1 = .operator .mul := by
  have explicit (expr : Expr) (read : Expr.ofTokens tokens = .ok expr) :
      withProducts tokens = tokens := by
    obtain ⟨_, _, _, derives⟩ := Expr.derivesOfTokens read
    exact derives.withProducts
  refine ⟨explicit, fun shorter omits => ⟨omits.withProducts, fun expr read => ?_⟩,
    (omitsWithProducts tokens).withProducts.symm, insertionsAll tokens, insertionsOld tokens,
    insertionsNew⟩
  rw [omits.withProducts, explicit expr read, read]

/-- A call and the half turn need no sign of a product. -/
theorem withProductsOmitsCall :
    withProducts [.number 2, .function .ln, .opening, .number 3, .closing, .pi] =
        [.number 2, .operator .mul, .function .ln, .opening, .number 3, .closing, .operator .mul,
          .pi] ∧
      Expr.ofTokens (withProducts
        [.number 2, .function .ln, .opening, .number 3, .closing, .pi]) =
          .ok (.binary .mul (.binary .mul (.number 2) (.call .ln (.number 3)))
            (.number Binary64.pi)) := by
  have read : Expr.ofTokens [.number 2, .operator .mul, .function .ln, .opening, .number 3,
      .closing, .operator .mul, .pi] =
        .ok (.binary .mul (.binary .mul (.number 2) (.call .ln (.number 3)))
          (.number Binary64.pi)) := rfl
  have omits : Omits [.number 2, .operator .mul, .function .ln, .opening, .number 3, .closing,
      .operator .mul, .pi] [.number 2, .function .ln, .opening, .number 3, .closing, .pi] :=
    .leave rfl (.keep _ (.keep _ (.keep _ (.leave rfl (.keep _ .nil)))))
  obtain ⟨explicit, found, _⟩ := withProductsOmits [.number 2, .operator .mul, .function .ln,
    .opening, .number 3, .closing, .operator .mul, .pi]
  obtain ⟨same, reads⟩ := found _ omits
  exact ⟨same.trans (explicit _ read), reads _ read⟩

end Token

end Calculator
