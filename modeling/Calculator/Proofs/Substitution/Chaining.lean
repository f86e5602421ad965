/-
This file proves that an expression takes the place of the answer it gave.
-/

import Calculator.Proofs.Grammar.Juxtaposition
import Calculator.Proofs.Grammar.Soundness
import Calculator.Proofs.Scanning.Analysis
import Calculator.Proofs.Substitution.Scanning

namespace Calculator

namespace Token

theorem productsReplacedAfter (inside : List Token) (previous : Token) (tokens : List Token) :
    productsAfter previous (replaceAnswer inside tokens) =
      replaceAnswer (withProducts inside) (productsAfter previous tokens) := by
  induction tokens generalizing previous with
  | nil => rfl
  | cons token rest inductionHypothesis =>
      by_cases answer : token = .answer
      · subst answer
        have enclosed : productsAfter .opening (inside ++ .closing :: replaceAnswer inside rest) =
            withProducts inside ++ .closing ::
              replaceAnswer (withProducts inside) (productsAfter .answer rest) := by
          rw [productsAppend, productsAfterOpening, productsAfter, juxtaposedClosing,
            productsAfterClosing, inductionHypothesis]
          rfl
        simp only [replaceAnswerCons, if_true, productsAfter, List.cons_append, List.append_assoc,
          List.nil_append, enclosed, juxtaposedOpening]
        split <;> simp
      · simp only [replaceAnswerCons, answer, if_false, productsAfter, List.cons_append,
          List.nil_append, inductionHypothesis]
        split <;> simp [answer]

/-- The products are found before or after the replacement. -/
theorem productsReplaced (inside tokens : List Token) :
    withProducts (replaceAnswer inside tokens) =
      replaceAnswer (withProducts inside) (withProducts tokens) := by
  rw [← productsAfterOpening, ← productsAfterOpening tokens, productsReplacedAfter]

end Token

namespace Expr

/-- The answer in a tree becomes a group. -/
def replaceAnswer (inside : Expr) : Expr → Expr
  | .number x => .number x
  | .answer => .group inside
  | .negate operand => .negate (replaceAnswer inside operand)
  | .binary op left right => .binary op (replaceAnswer inside left) (replaceAnswer inside right)
  | .call f argument => .call f (replaceAnswer inside argument)
  | .factorial operand => .factorial (replaceAnswer inside operand)
  | .group expr => .group (replaceAnswer inside expr)

/-- The group has the value of the answer. -/
theorem computeReplaced {inside : Expr} {answer x : Float} {unit : AngleUnit}
    (computed : inside.compute answer unit = .ok x) (expr : Expr) :
    (replaceAnswer inside expr).compute answer unit = expr.compute x unit := by
  induction expr with
  | number _ => rfl
  | answer => exact computed
  | negate operand inductionHypothesis =>
      simp only [replaceAnswer, compute, inductionHypothesis]
  | binary op left right leftHypothesis rightHypothesis =>
      simp only [replaceAnswer, compute, leftHypothesis, rightHypothesis]
  | call f argument inductionHypothesis =>
      simp only [replaceAnswer, compute, inductionHypothesis]
  | factorial operand inductionHypothesis =>
      simp only [replaceAnswer, compute, inductionHypothesis]
  | group expr inductionHypothesis =>
      simp only [replaceAnswer, compute, inductionHypothesis]

end Expr

/-- A group stands wherever the answer stands. -/
theorem Derives.replaceAnswer {layer : Layer} {inside tokens : List Token} {inner expr : Expr}
    {depth nesting : Nat} (derives : Derives layer tokens expr nesting)
    (derivesInside : Derives .sum inside inner depth) :
    ∃ reached, Derives layer (Token.replaceAnswer inside tokens) (Expr.replaceAnswer inner expr)
      reached := by
  induction derives with
  | number x => exact ⟨_, .number x⟩
  | pi => exact ⟨_, .pi⟩
  | answer => exact ⟨_, by simpa [Expr.replaceAnswer] using derivesInside.group⟩
  | group _ inductionHypothesis =>
      obtain ⟨reached, replaced⟩ := inductionHypothesis
      exact ⟨_, by simpa [Expr.replaceAnswer] using replaced.group⟩
  | call f _ inductionHypothesis =>
      obtain ⟨reached, replaced⟩ := inductionHypothesis
      exact ⟨_, by simpa [Expr.replaceAnswer] using replaced.call f⟩
  | factorial _ inductionHypothesis =>
      obtain ⟨reached, replaced⟩ := inductionHypothesis
      exact ⟨_, by simpa [Expr.replaceAnswer] using replaced.factorial⟩
  | negate _ inductionHypothesis =>
      obtain ⟨reached, replaced⟩ := inductionHypothesis
      exact ⟨_, by simpa [Expr.replaceAnswer] using replaced.negate⟩
  | keep _ inductionHypothesis =>
      obtain ⟨reached, replaced⟩ := inductionHypothesis
      exact ⟨_, by simpa [Expr.replaceAnswer] using replaced.keep⟩
  | binary op _ _ firstHypothesis secondHypothesis =>
      obtain ⟨_, first⟩ := firstHypothesis
      obtain ⟨_, second⟩ := secondHypothesis
      exact ⟨_, by simpa [Expr.replaceAnswer] using first.binary op second⟩
  | loosen _ inductionHypothesis =>
      obtain ⟨reached, replaced⟩ := inductionHypothesis
      exact ⟨_, replaced.loosen⟩

/-- The value of a text is the value of its tree. -/
theorem computeOfEvaluation {text : String} {answer x : Float} {unit : AngleUnit} {steps : Steps}
    (evaluated : evaluate text answer unit = .ok (x, steps)) :
    ∃ analysis, analyse text = .ok analysis ∧ analysis.expr.compute answer unit = .ok x := by
  unfold evaluate at evaluated
  split at evaluated
  · cases evaluated
  · next analysis analysed =>
    refine ⟨analysis, analysed, ?_⟩
    split at evaluated
    · cases evaluated
    · next y reached =>
      cases evaluated
      exact (Expr.evaluateOk.mp reached).1

/-- Every answer in the second text becomes the first text between parentheses. -/
def replaceAnswer (first second : String) : String :=
  String.ofList (Text.replaceAnswer first.toList second.toList)

theorem scanReplaced {first second : String} {inner tokens : List Token}
    (scannedInside : Token.scan first = .ok inner) (scanned : Token.scan second = .ok tokens) :
    Token.scan (replaceAnswer first second) = .ok (Token.replaceAnswer inner tokens) := by
  rw [Token.scan, replaceAnswer, String.toList_ofList]
  exact Lexeme.scanReplaced scannedInside scanned 0

/-- Within the limits the new text has the new tree. -/
theorem analyseReplaced {first second : String} {inside analysis : Analysis}
    (analysedInside : analyse first = .ok inside) (analysed : analyse second = .ok analysis)
    (short : ∀ count, analyse (replaceAnswer first second) ≠ .error (.tooLong count))
    (shallow : analyse (replaceAnswer first second) ≠ .error .tooDeep) :
    ∃ replaced, analyse (replaceAnswer first second) = .ok replaced ∧
      replaced.expr = Expr.replaceAnswer inside.expr analysis.expr := by
  obtain ⟨inner, scannedInside, readInside⟩ := scanOfAnalysis analysedInside
  obtain ⟨tokens, scanned, read⟩ := scanOfAnalysis analysed
  obtain ⟨_, _, _, derivesInside⟩ := Expr.derivesOfTokens readInside
  obtain ⟨_, _, _, derives⟩ := Expr.derivesOfTokens read
  obtain ⟨nesting, replaced⟩ := derives.replaceAnswer derivesInside
  rw [← Token.productsReplaced] at replaced
  exact analyseWithin (scanReplaced scannedInside scanned) replaced short shallow

/-- An expression may be written in the place of the answer it gave. Within the limits, the new
text has the same value as the old text after the new answer, or the same error. -/
theorem evaluateReplaced {first second : String} {answer x : Float} {unit : AngleUnit}
    {steps : Steps} {analysis : Analysis} (evaluated : evaluate first answer unit = .ok (x, steps))
    (analysed : analyse second = .ok analysis)
    (short : ∀ count, analyse (replaceAnswer first second) ≠ .error (.tooLong count))
    (shallow : analyse (replaceAnswer first second) ≠ .error .tooDeep) :
    (∃ replaced, analyse (replaceAnswer first second) = .ok replaced) ∧
      (evaluate (replaceAnswer first second) answer unit).map Prod.fst =
        (evaluate second x unit).map Prod.fst := by
  obtain ⟨inside, analysedInside, computed⟩ := computeOfEvaluation evaluated
  obtain ⟨replaced, reached, tree⟩ := analyseReplaced analysedInside analysed short shallow
  refine ⟨⟨replaced, reached⟩, ?_⟩
  rw [evaluate, evaluate, reached, analysed]
  simp only [tree, Expr.evaluate, Expr.computeReplaced computed]
  cases analysis.expr.compute x unit with
  | error cause => rfl
  | ok y =>
      simp only
      split <;> rfl

/-- A sum of three is multiplied and marked like the answer three. -/
theorem evaluateReplacedSum :
    (∃ replaced, analyse "2(1+2)!" = .ok replaced) ∧
      (evaluate "2(1+2)!" 0 .radian).map Prod.fst = (evaluate "2Ans!" 3 .radian).map Prod.fst := by
  have text : replaceAnswer "1+2" "2Ans!" = "2(1+2)!" := by decide
  have value : (evaluate "1+2" 0 .radian).toOption.map Prod.fst = some 3 := by decide +kernel
  have read : (analyse "2Ans!").isOk := by decide +kernel
  have readReplaced : (analyse "2(1+2)!").isOk := by decide +kernel
  obtain ⟨⟨_, steps⟩, evaluated, rfl⟩ : ∃ result, evaluate "1+2" 0 .radian = .ok result ∧
      result.1 = 3 := by
    cases reached : evaluate "1+2" 0 .radian with
    | error cause =>
        rw [reached] at value
        cases value
    | ok result =>
        rw [reached] at value
        exact ⟨result, rfl, Option.some.inj value⟩
  obtain ⟨analysis, analysed⟩ : ∃ analysis, analyse "2Ans!" = .ok analysis := by
    cases reached : analyse "2Ans!" with
    | error cause =>
        rw [reached] at read
        cases read
    | ok analysis => exact ⟨analysis, rfl⟩
  have accepted (cause : SyntaxError) : analyse (replaceAnswer "1+2" "2Ans!") ≠ .error cause := by
    intro refused
    rw [text] at refused
    rw [refused] at readReplaced
    cases readReplaced
  rw [← text]
  exact evaluateReplaced evaluated analysed (fun count => accepted (.tooLong count))
    (accepted .tooDeep)

end Calculator
