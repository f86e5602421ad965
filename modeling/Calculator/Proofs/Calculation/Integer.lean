/-
This file proves that the arithmetic of integers is exact from the text to the display.
-/

import Calculator.Proofs.Display.Integer
import Calculator.Proofs.Scanning.Analysis
import Calculator.Proofs.Scanning.Numeral

namespace Calculator

open Binary64 (IsInteger)

/-- These are the texts of the numbers among some pieces. -/
def Lexeme.numerals (pieces : List (List Char × Option Token)) : List (List Char) :=
  (pieces.filter fun piece => piece.2.any Token.isNumber).map Prod.fst

/-- These operations have integers as results on integers. -/
def Operator.integer? : Operator → Option (Int → Int → Int)
  | .add => some (· + ·)
  | .sub => some (· - ·)
  | .mul => some (· * ·)
  | .div | .pow => none

/-- A tree with these written integers in its places for literals has this integral value, and no
integer in it exceeds the 53rd power of two. -/
inductive Expr.Counts : Expr → List Nat → Int → Prop where
  | number (x : Float) {n : Nat} : n ≤ 2 ^ 53 → Counts (.number x) [n] n
  | negate {operand : Expr} {written : List Nat} {n : Int} :
      Counts operand written n → Counts (.negate operand) written (-n)
  | group {inside : Expr} {written : List Nat} {n : Int} :
      Counts inside written n → Counts (.group inside) written n
  | binary {op : Operator} {left right : Expr} {first second : List Nat} {m n : Int}
      {operation : Int → Int → Int} :
      op.integer? = some operation → Counts left first m → Counts right second n →
      (operation m n).natAbs ≤ 2 ^ 53 →
      Counts (.binary op left right) (first ++ second) (operation m n)

section Evaluation

variable {op : Operator} {operation : Int → Int → Int} {x y : Float} {m n : Int} {expr : Expr}
  {written : List Nat}

/-- An operation on integers is exact, and it does not leave the range. -/
theorem Operator.applyInteger (integral : op.integer? = some operation) (left : IsInteger x m)
    (right : IsInteger y n) (small : (operation m n).natAbs ≤ 2 ^ 53) :
    ∃ z, op.apply x y = .ok z ∧ IsInteger z (operation m n) := by
  obtain ⟨z, computed, integer⟩ : ∃ z, op.compute x y = .ok z ∧ IsInteger z (operation m n) := by
    cases op with
    | add =>
        cases integral
        exact ⟨x + y, rfl, left.add right small⟩
    | sub =>
        cases integral
        exact ⟨x - y, rfl, left.sub right small⟩
    | mul =>
        cases integral
        exact ⟨x * y, rfl, left.mul right small⟩
    | div | pow => cases integral
  refine ⟨z, ?_, integer⟩
  simp [apply, computed, Binary64.infOfFinite integer.finite]

namespace Expr

theorem Counts.length (counts : Counts expr written n) :
    expr.literals.length = written.length := by
  induction counts with
  | number x _ => rfl
  | negate _ inductionHypothesis | group _ inductionHypothesis => exact inductionHypothesis
  | binary _ _ _ _ leftHypothesis rightHypothesis =>
      simp [literals, leftHypothesis, rightHypothesis]

/-- The number of a tree is the integer of the tree. -/
theorem Counts.compute (counts : Counts expr written n)
    (nearest : expr.literals = written.map fun n : Nat => Binary64.nearest n) :
    ∃ x, IsInteger x n ∧ ∀ answer unit, expr.compute answer unit = .ok x := by
  induction counts with
  | number x small =>
      obtain rfl : x = _ := List.singleton_inj.mp nearest
      have integer := Binary64.nearestInteger small
      refine ⟨_, integer, fun answer unit => ?_⟩
      rw [Expr.compute, Binary64.infOfFinite integer.finite]
      rfl
  | negate _ inductionHypothesis =>
      obtain ⟨x, integer, computed⟩ := inductionHypothesis nearest
      exact ⟨-x, integer.neg, fun answer unit => by rw [Expr.compute, computed]⟩
  | group _ inductionHypothesis => exact inductionHypothesis nearest
  | binary integral left right small leftHypothesis rightHypothesis =>
      rw [literals, List.map_append] at nearest
      obtain ⟨nearestLeft, nearestRight⟩ :=
        List.append_inj nearest (by rw [left.length, List.length_map])
      obtain ⟨x, integerLeft, computedLeft⟩ := leftHypothesis nearestLeft
      obtain ⟨y, integerRight, computedRight⟩ := rightHypothesis nearestRight
      obtain ⟨z, applied, integer⟩ := Operator.applyInteger integral integerLeft integerRight small
      refine ⟨z, integer, fun answer unit => ?_⟩
      simp only [Expr.compute, computedLeft, computedRight, applied]

end Expr

end Evaluation

namespace Lexeme

variable {text rest : List Char}

/-- A number of digits only denotes the integer of its digits. -/
theorem NumberText.integer {value : Rat} (number : NumberText text value rest)
    (digits : ∀ c ∈ text, c.isDigit) : value = (Nat.ofDigitChars 10 text 0 : Nat) := by
  cases number with
  | exponent mantissa scaled =>
      cases mantissa.pointed with
      | point _ => exact absurd (digits '.' (by simp)) (by decide)
      | without _ =>
          cases scaled with
          | mark _ _ _ => exact absurd (digits 'E' (by simp)) (by decide)
          | without _ => simp

/-- A piece without a half turn is a literal exactly if it is a numeral. -/
theorem Piece.literals {token : Option Token} (piece : Piece text token rest) (turn : 'π' ∉ text)
    (digits : ∀ numeral ∈ numerals [(text, token)], ∀ c ∈ numeral, c.isDigit) :
    (tokensOf [(text, token)]).filterMap Token.literal? =
      (numerals [(text, token)]).map fun numeral =>
        Binary64.nearest (Nat.ofDigitChars 10 numeral 0 : Nat) := by
  cases piece with
  | blank _ => rfl
  | @symbol c token _ entry =>
      have table : ∀ entry ∈ symbols, entry.1 ≠ 'π' →
          Token.literal? entry.2 = none ∧ entry.2.isNumber = false := by decide
      obtain ⟨literal, number⟩ := table _ entry fun same => turn (by simpa using same.symm)
      simp [tokensOf, numerals, literal, number]
  | @word letters token _ entry =>
      have table : ∀ entry ∈ vocabulary,
          Token.literal? entry.2 = none ∧ entry.2.isNumber = false := by decide
      obtain ⟨literal, number⟩ := table _ entry
      simp [tokensOf, numerals, literal, number]
  | @number text _ value x number closest =>
      have integer := number.integer (digits text (by simp [numerals, Token.isNumber]))
      have nonnegative : 0 ≤ value := by
        rw [integer]
        exact Nat.cast_nonneg _
      have nearest := (Binary64.closestIff nonnegative).mp closest
      rw [integer] at nearest
      rw [nearest]
      rfl

/-- Without a half turn the literals of a text are the numbers nearest to its numerals. -/
theorem Cut.literals {chars : List Char} {pieces : List (List Char × Option Token)}
    (cut : Cut chars pieces rest) (turn : 'π' ∉ chars)
    (digits : ∀ numeral ∈ numerals pieces, ∀ c ∈ numeral, c.isDigit) :
    (tokensOf pieces).filterMap Token.literal? =
      (numerals pieces).map fun numeral =>
        Binary64.nearest (Nat.ofDigitChars 10 numeral 0 : Nat) := by
  induction cut with
  | stop rest => rfl
  | @piece text others rest token pieces stands _ inductionHypothesis =>
      have tokens : tokensOf ((text, token) :: pieces) =
          tokensOf [(text, token)] ++ tokensOf pieces :=
        List.filterMap_append (l := [(text, token)])
      have texts : numerals ((text, token) :: pieces) =
          numerals [(text, token)] ++ numerals pieces := by
        rw [numerals, ← List.singleton_append, List.filter_append, List.map_append]
        rfl
      rw [texts] at digits ⊢
      rw [tokens, List.filterMap_append, List.map_append]
      have first := stands.literals (fun member => turn (List.mem_append_left _ member))
        fun numeral member => digits numeral (List.mem_append_left _ member)
      have others := inductionHypothesis (fun member => turn (List.mem_append_right _ member))
        fun numeral member => digits numeral (List.mem_append_right _ member)
      rw [first, others]

end Lexeme

/-- A text without a half turn whose numbers are written with digits only, and whose tree has only
signs, groups, sums, differences and products of integers up to the 53rd power of two, is calculated
exactly. The answer is the integer itself, and a short integer is displayed as its numeral. -/
theorem calculateInteger {text : String} {analysis : Analysis}
    {pieces : List (List Char × Option Token)} {n : Int} (analysed : analyse text = .ok analysis)
    (cut : Lexeme.Cut text.toList pieces []) (turn : 'π' ∉ text.toList)
    (digits : ∀ numeral ∈ Lexeme.numerals pieces, ∀ c ∈ numeral, c.isDigit)
    (counts : analysis.expr.Counts
      ((Lexeme.numerals pieces).map fun numeral => Nat.ofDigitChars 10 numeral 0) n) :
    ∃ x : Float, x.isFinite ∧ Binary64.value x = n ∧
      (∀ answer unit mode, calculate text answer unit mode = ⟨mode.render x, some x⟩) ∧
      (n.natAbs < 10 ^ 10 → ∀ answer unit,
        (calculate text answer unit .normal).display = toString n) := by
  obtain ⟨tokens, scanned, literals⟩ := literalsOfAnalysis analysed
  have same : Token.scan text = .ok (Lexeme.tokensOf pieces) :=
    Lexeme.scanOk.mpr ⟨pieces, cut, rfl⟩
  obtain rfl : tokens = Lexeme.tokensOf pieces := Except.ok.inj (scanned.symm.trans same)
  rw [cut.literals turn digits] at literals
  obtain ⟨x, integer, computed⟩ := counts.compute (by rw [literals, List.map_map]; rfl)
  have calculated (answer : Float) (unit : AngleUnit) (mode : DisplayMode) :
      calculate text answer unit mode = ⟨mode.render x, some x⟩ := by
    have evaluated : analysis.expr.evaluate answer unit = .ok x :=
      Expr.evaluateOk.mpr ⟨computed answer unit, integer.finite⟩
    simp only [calculate, calculateWithSteps, analysed, evaluated]
    rfl
  refine ⟨x, integer.finite, integer.value, calculated, fun short answer unit => ?_⟩
  rw [calculated]
  exact DisplayMode.renderInteger integer short

/-- The product before the parenthesis has no sign of its own. -/
theorem calculateIntegerProduct : ∃ x : Float, x.isFinite ∧ Binary64.value x = (-54 : Int) ∧
    (∀ answer unit mode, calculate "2(3*-9)" answer unit mode = ⟨mode.render x, some x⟩) ∧
    ∀ answer unit, (calculate "2(3*-9)" answer unit .normal).display = "-54" := by
  have read : (analyse "2(3*-9)").toOption.map Analysis.expr = some (.binary .mul (.number 2)
      (.group (.binary .mul (.number 3) (.negate (.number 9))))) := by decide +kernel
  have numeral {c next : Char} (digit : c.isDigit) (nonzero : c ≠ '0')
      (ends : Lexeme.inNumeral next = false) (rest : List Char) :
      Lexeme.Piece [c] (some (.number (Decimal.ofDigits [c] [] 0).toFloat)) (next :: rest) := by
    have whole : Decimal.Whole [c] := ⟨by simpa using digit, .inr ⟨c, rfl, nonzero⟩⟩
    exact Lexeme.pieceNumeral whole (List.forall_mem_nil _) (Lexeme.endsSymbol ends rest)
  have two : Lexeme.Piece ['2'] _ "(3*-9)".toList := numeral rfl (by decide) rfl _
  have three : Lexeme.Piece ['3'] _ "*-9)".toList := numeral rfl (by decide) rfl _
  have nine : Lexeme.Piece ['9'] _ ")".toList := numeral rfl (by decide) rfl _
  have symbol {c : Char} {token : Token} (entry : (c, token) ∈ Lexeme.symbols) {chars : List Char}
      {pieces : List (List Char × Option Token)} (cut : Lexeme.Cut chars pieces []) :
      Lexeme.Cut (c :: chars) (([c], some token) :: pieces) [] := .piece (.symbol entry) cut
  have closing := Lexeme.Cut.piece nine (symbol (show (')', .closing) ∈ _ by decide) (.stop []))
  have negated := symbol (show ('*', .operator .mul) ∈ _ by decide)
    (symbol (show ('-', .operator .sub) ∈ _ by decide) closing)
  have cut := Lexeme.Cut.piece two
    (symbol (show ('(', .opening) ∈ _ by decide) (.piece three negated))
  have digits : ∀ numeral ∈ [['2'], ['3'], ['9']], ∀ c ∈ numeral, c.isDigit := by simp
  cases analysed : analyse "2(3*-9)" with
  | error cause =>
      rw [analysed] at read
      cases read
  | ok analysis =>
      rw [analysed] at read
      have tree : analysis.expr = _ := Option.some.inj read
      have inside : Expr.Counts (.binary .mul (.number 3) (.negate (.number 9)))
          ([3] ++ [9]) (3 * -9) :=
        .binary rfl (.number 3 (by decide)) (.negate (.number 9 (by decide))) (by decide)
      have counts : analysis.expr.Counts ([2] ++ ([3] ++ [9])) (2 * (3 * -9)) := by
        rw [tree]
        exact .binary rfl (.number 2 (by decide)) (.group inside) (by decide)
      obtain ⟨x, finite, value, calculated, shown⟩ :=
        calculateInteger analysed cut (by decide) digits counts
      exact ⟨x, finite, value, calculated, shown (by decide)⟩

end Calculator
