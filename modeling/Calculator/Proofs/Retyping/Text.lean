/-
This file proves that the text of a tree can be typed again.
-/

import Calculator.Proofs.Retyping.Enclosure
import Calculator.Proofs.Retyping.Tokens

namespace Calculator

namespace Expr

open Lexeme

/-- A round bracket takes the place of a square one. -/
def roundBracket (c : Char) : Char :=
  if c = '[' then '(' else if c = ']' then ')' else c

def roundBrackets (text : String) : String :=
  String.ofList (text.toList.map roundBracket)

theorem roundWithout {chars : List Char} (plain : ∀ c ∈ chars, c ≠ '[' ∧ c ≠ ']') :
    chars.map roundBracket = chars := by
  refine (List.map_congr_left fun c member => ?_).trans (List.map_id chars)
  simp [roundBracket, plain c member]

theorem roundName (f : NamedFunction) : f.name.toList.map roundBracket = f.name.toList := by
  rcases f with (_ | _ | _) | _ | _ | _ | _ <;> decide

theorem roundSymbol (op : Operator) : roundBracket op.symbol = op.symbol := by
  cases op <;> decide

theorem roundNumeral {whole fraction : List Char} (canonical : Decimal.Whole whole)
    (fractionDigits : ∀ c ∈ fraction, c.isDigit) :
    (whole ++ Decimal.point fraction).map roundBracket = whole ++ Decimal.point fraction := by
  have digitPlain (c : Char) (digit : c.isDigit) : c ≠ '[' ∧ c ≠ ']' := by
    constructor <;> rintro rfl <;> exact absurd digit (by decide)
  exact roundWithout
    (Decimal.numeralCharacters digitPlain (by decide) canonical.digit fractionDigits)

section Typing

variable {rest : List Char}

theorem givesLiteral {x : Float} (plus : Binary64.negative x = false) (finite : x.isFinite)
    (ends : EndsNumeral rest) :
    Gives ((spellNumber x).map roundBracket ++ rest) [.number x] rest := by
  have given := givesNumber plus finite ends
  obtain ⟨whole, fraction, canonical, fractionDigits, text, _⟩ := spellReads plus finite
  rwa [text, roundNumeral canonical fractionDigits.digit, ← text]

/-- The typed text of a tree gives the tokens of the enclosed tree. -/
theorem givesEnclosed (expr : Expr)
    (literal : ∀ x ∈ expr.literals, Binary64.negative x = false ∧ x.isFinite)
    (ends : EndsNumeral rest) :
    Gives (expr.spelling.map roundBracket ++ rest) expr.enclosedTokens rest := by
  induction expr generalizing rest with
  | number x =>
      obtain ⟨plus, finite⟩ := literal x (by simp [literals])
      exact givesLiteral plus finite ends
  | answer => exact givesWord (show .answer ∈ words by decide) rest
  | negate operand inductionHypothesis =>
      have text : (negate operand).spelling.map roundBracket ++ rest =
          '(' :: '-' :: (operand.spelling.map roundBracket ++ ')' :: rest) := by
        simp [spelling, roundBracket]
      have inside := inductionHypothesis literal (endsSymbol (c := ')') rfl rest)
      rw [text]
      exact (givesSymbol rfl _).append ((givesSymbol rfl _).append
        (inside.append (givesSymbol rfl rest)))
  | binary op left right leftHypothesis rightHypothesis =>
      have text : (binary op left right).spelling.map roundBracket ++ rest =
          '(' :: (left.spelling.map roundBracket ++ ' ' :: op.symbol :: ' ' ::
            (right.spelling.map roundBracket ++ ')' :: rest)) := by
        have operator := roundSymbol op
        rw [roundBracket] at operator
        simp [spelling, roundBracket, operator]
      have first (after : List Char) :=
        leftHypothesis (fun x member => literal x (List.mem_append_left _ member))
          (endsSymbol (c := ' ') rfl after)
      have second := rightHypothesis (fun x member => literal x (List.mem_append_right _ member))
        (endsSymbol (c := ')') rfl rest)
      rw [text]
      exact (givesSymbol rfl _).append ((first _).append ((givesSpace _).append
        ((givesOperator op _).append ((givesSpace _).append
          (second.append (givesSymbol rfl rest))))))
  | call f argument inductionHypothesis =>
      have text : (call f argument).spelling.map roundBracket ++ rest =
          f.name.toList ++ '(' :: (argument.spelling.map roundBracket ++ ')' :: rest) := by
        simp [spelling, roundName, roundBracket]
      have inside := inductionHypothesis literal (endsSymbol (c := ')') rfl rest)
      rw [text]
      exact (givesFunction f _).append ((givesSymbol rfl _).append
        (inside.append (givesSymbol rfl rest)))
  | factorial operand inductionHypothesis =>
      have text : (factorial operand).spelling.map roundBracket ++ rest =
          '(' :: (operand.spelling.map roundBracket ++ '!' :: ')' :: rest) := by
        simp [spelling, roundBracket]
      have inside := inductionHypothesis literal
        (endsSymbol (c := '!') rfl (')' :: rest))
      rw [text]
      exact (givesSymbol rfl _).append (inside.append
        ((givesSymbol rfl _).append (givesSymbol rfl rest)))
  | group inside inductionHypothesis => exact inductionHypothesis literal ends

end Typing

theorem scanTyped (expr : Expr)
    (literal : ∀ x ∈ expr.literals, Binary64.negative x = false ∧ x.isFinite) :
    Token.scan (roundBrackets expr.text) = .ok expr.enclosedTokens := by
  have given := givesEnclosed expr literal endsNothing
  rw [List.append_nil] at given
  rw [Token.scan, roundBrackets, text, String.toList_ofList, String.toList_ofList]
  exact given.scan 0

end Expr

/-- The literals of an analysed tree have no sign. -/
theorem literalPlus {text : String} {analysis : Analysis} (analysed : analyse text = .ok analysis)
    {x : Float} (literal : x ∈ analysis.expr.literals) : Binary64.negative x = false := by
  obtain ⟨tokens, scanned, same⟩ := literalsOfAnalysis analysed
  rw [same] at literal
  obtain ⟨token, member, spelled⟩ := List.mem_filterMap.mp literal
  cases token with
  | number y =>
      cases spelled
      exact (Lexeme.scannedPlus scanned member).2
  | pi =>
      cases spelled
      decide
  | answer | function _ | operator _ | factorial | opening | closing => cases spelled

/-- The text of a tree with finite literals, with round brackets in the place of the square ones,
is the text of an expression within the limits. It needs no further product, and its tree is the
same but for its groups, so it has the same value. -/
theorem analyseTyped {text : String} {analysis : Analysis}
    (analysed : analyse text = .ok analysis)
    (finite : ∀ x ∈ analysis.expr.literals, x.isFinite)
    (short : ∀ count,
      analyse (Expr.roundBrackets analysis.steps.tree) ≠ .error (.tooLong count))
    (shallow : analyse (Expr.roundBrackets analysis.steps.tree) ≠ .error .tooDeep) :
    ∃ typed tokens, analyse (Expr.roundBrackets analysis.steps.tree) = .ok typed ∧
      Token.scan (Expr.roundBrackets analysis.steps.tree) = .ok tokens ∧
      Token.withProducts tokens = tokens ∧
      typed.expr.withoutGroups = analysis.expr.withoutGroups ∧
      ∀ answer unit, typed.expr.evaluate answer unit = analysis.expr.evaluate answer unit := by
  have scanned := Expr.scanTyped analysis.expr fun x literal =>
    ⟨literalPlus analysed literal, finite x literal⟩
  obtain ⟨_, derives⟩ := Expr.derivesEnclosed analysis.expr
  have sum := derives.widen .sum (by decide)
  rw [← Token.withProductsEnclosed] at sum
  rw [treeOfAnalysis analysed] at short shallow ⊢
  obtain ⟨typed, reached, tree⟩ := analyseWithin scanned sum short shallow
  have same : typed.expr.withoutGroups = analysis.expr.withoutGroups := by
    rw [tree, Expr.enclosedWithoutGroups]
  exact ⟨typed, analysis.expr.enclosedTokens, reached, scanned,
    Token.withProductsEnclosed analysis.expr, same, Expr.evaluateWithoutGroups same⟩

/-- A call is typed again with round brackets, and its sign with parentheses of its own. -/
theorem analyseTypedCall : ∃ analysis typed, analyse "2sin(-30)!" = .ok analysis ∧
    analysis.steps.tree = "(2 * (sin[(-30)]!))" ∧
    analyse "(2 * (sin((-30))!))" = .ok typed ∧
    typed.expr.withoutGroups = analysis.expr.withoutGroups := by
  have read : (analyse "2sin(-30)!").toOption.map
      (fun analysis => (analysis.steps.tree, analysis.expr.literals)) =
        some ("(2 * (sin[(-30)]!))", [2, 30]) := by decide +kernel
  have accepted : (analyse "(2 * (sin((-30))!))").isOk := by decide +kernel
  have text : Expr.roundBrackets "(2 * (sin[(-30)]!))" = "(2 * (sin((-30))!))" := by decide +kernel
  cases analysed : analyse "2sin(-30)!" with
  | error cause =>
      rw [analysed] at read
      cases read
  | ok analysis =>
      rw [analysed] at read
      obtain ⟨tree, literals⟩ := Prod.mk.inj (Option.some.inj read)
      have finite : ∀ x ∈ analysis.expr.literals, x.isFinite := by
        rw [literals]
        decide
      have typed := analyseTyped analysed finite
      rw [tree, text] at typed
      have within (cause : SyntaxError) : analyse "(2 * (sin((-30))!))" ≠ .error cause := by
        intro refused
        rw [refused] at accepted
        cases accepted
      obtain ⟨typed, _, reached, _, _, same, _⟩ :=
        typed (fun count => within (.tooLong count)) (within .tooDeep)
      exact ⟨analysis, typed, rfl, tree, reached, same⟩

end Calculator
