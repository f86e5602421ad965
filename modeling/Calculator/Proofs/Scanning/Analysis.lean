/-
This file proves that a text is analysed through its tokens.
-/

import Calculator.Calculation
import Calculator.Proofs.Grammar.Completeness
import Calculator.Proofs.Grammar.Literals
import Calculator.Proofs.Grammar.Soundness
import Calculator.Proofs.Scanning.Composition

namespace Calculator

/-- The blanks around a text do not change its analysis. -/
theorem analyseTrim (text : String) :
    analyse (String.ofList (Text.trim text.toList)) = analyse text := by
  rw [analyse, analyse, String.toList_ofList, Text.trimTrim]

/-- An analysed text has tokens, and its tree is the tree of its tokens with every product. -/
theorem scanOfAnalysis {text : String} {analysis : Analysis}
    (analysed : analyse text = .ok analysis) :
    ∃ tokens, Token.scan text = .ok tokens ∧
      Expr.ofTokens (Token.withProducts tokens) = .ok analysis.expr := by
  unfold analyse at analysed
  simp only at analysed
  split at analysed
  · cases analysed
  · split at analysed
    · cases analysed
    · next tokens scanned =>
      split at analysed
      · cases analysed
      · next expr read =>
        cases analysed
        refine ⟨tokens, ?_, read⟩
        rw [Token.scan, Lexeme.scanTrim]
        exact Lexeme.scanAnywhere scanned _

/-- The literals of an analysed text are those of its tokens. -/
theorem literalsOfAnalysis {text : String} {analysis : Analysis}
    (analysed : analyse text = .ok analysis) :
    ∃ tokens, Token.scan text = .ok tokens ∧
      analysis.expr.literals = tokens.filterMap Token.literal? := by
  obtain ⟨tokens, scanned, read⟩ := scanOfAnalysis analysed
  obtain ⟨_, _, _, derives⟩ := Expr.derivesOfTokens read
  exact ⟨tokens, scanned, derives.literals.trans (Token.literalsWithProducts tokens)⟩

/-- A text with tokens is analysed through its tokens. -/
theorem analyseScanned {text : String} {tokens : List Token}
    (scanned : Token.scan text = .ok tokens) (present : tokens ≠ []) :
    analyse text =
      match Expr.ofTokens (Token.withProducts tokens) with
      | .error cause => .error cause
      | .ok expr => .ok ⟨expr, ⟨Token.text tokens, Token.text (Token.withProducts tokens),
          expr.text⟩⟩ := by
  rw [Token.scan, Lexeme.scanTrim] at scanned
  have trimmed := Lexeme.scanAnywhere scanned 0
  have nonempty : (Text.trim text.toList).isEmpty = false := by
    rw [Bool.eq_false_iff]
    intro empty
    rw [List.isEmpty_iff.mp empty, Lexeme.scanFromNil] at trimmed
    cases trimmed
    exact present rfl
  unfold analyse
  cases read : Expr.ofTokens (Token.withProducts tokens) <;>
    simp only [nonempty, trimmed, read, Bool.false_eq_true, if_false]

/-- The steps show the text of the tree. -/
theorem treeOfAnalysis {text : String} {analysis : Analysis}
    (analysed : analyse text = .ok analysis) : analysis.steps.tree = analysis.expr.text := by
  unfold analyse at analysed
  simp only at analysed
  split at analysed
  · cases analysed
  · split at analysed
    · cases analysed
    · split at analysed
      · cases analysed
      · cases analysed
        rfl

/-- Within the limits a text of derived tokens has the derived tree. -/
theorem analyseWithin {text : String} {tokens : List Token} {expr : Expr} {nesting : Nat}
    (scanned : Token.scan text = .ok tokens)
    (derives : Derives .sum (Token.withProducts tokens) expr nesting)
    (short : ∀ count, analyse text ≠ .error (.tooLong count))
    (shallow : analyse text ≠ .error .tooDeep) :
    ∃ analysis, analyse text = .ok analysis ∧ analysis.expr = expr := by
  have present : tokens ≠ [] := by
    rintro rfl
    obtain ⟨_, _, absurd, _⟩ := derives.starts
    cases absurd
  rw [analyseScanned scanned present] at short shallow ⊢
  by_cases within : (Token.withProducts tokens).length ≤ tokenLimit
  · by_cases bounded : nesting ≤ Frame.depthLimit
    · rw [Expr.ofTokensShallow derives within bounded]
      exact ⟨_, rfl, rfl⟩
    · rw [Expr.ofTokensDeep derives within (Nat.lt_of_not_le bounded)] at shallow
      exact absurd rfl shallow
  · rw [Expr.ofTokensLong within] at short
    exact absurd rfl (short _)

end Calculator
