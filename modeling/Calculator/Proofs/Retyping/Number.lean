/-
This file proves that the text of a number with a sign is calculated as the nearest number.
-/

import Calculator.Proofs.Display.Rendering
import Calculator.Proofs.Grammar.Completeness
import Calculator.Proofs.Grammar.Juxtaposition
import Calculator.Proofs.Scanning.Analysis
import Calculator.Proofs.Scanning.Numeral

namespace Calculator

open Binary64 DisplayMode

namespace Lexeme

/-- A minus sign may stand before the text of a number. -/
inductive SignedText : List Char → Rat → Prop where
  | number (minus : Bool) {text : List Char} {size : Rat} : NumberText text size [] →
      SignedText (signed minus text) (if minus then -size else size)

end Lexeme

/-- These are the tokens of a number with a sign. -/
def Token.signed (minus : Bool) (x : Float) : List Token :=
  if minus then [.operator .sub, .number x] else [.number x]

/-- This is the tree of a number with a sign. -/
def Expr.signed (minus : Bool) (x : Float) : Expr :=
  if minus then .negate (.number x) else .number x

theorem derivesSigned (minus : Bool) (x : Float) :
    ∃ nesting ≤ Frame.depthLimit, Derives .sum (Token.signed minus x) (.signed minus x) nesting := by
  have number := Derives.number x
  cases minus with
  | false => exact ⟨_, by decide, number.widen .sum (by decide)⟩
  | true => exact ⟨_, by decide, (number.widen .signed (by decide)).negate.widen .sum (by decide)⟩

section

variable {text : List Char} {size : Rat}

/-- The sign has a token of its own. -/
theorem scanSigned (minus : Bool) (number : Lexeme.NumberText text size []) :
    Token.scan (String.ofList (signed minus text)) = .ok (Token.signed minus (nearest size)) := by
  have closest := (closestIff number.nonnegative).mpr rfl
  have given := Lexeme.givesPiece (Lexeme.Piece.number number closest)
  rw [List.append_nil] at given
  rw [Token.scan, String.toList_ofList]
  cases minus with
  | false => exact given.scan 0
  | true => exact ((Lexeme.givesSymbol rfl text).append given).scan 0

theorem analyseSigned (minus : Bool) (number : Lexeme.NumberText text size []) :
    ∃ steps, analyse (String.ofList (signed minus text)) =
      .ok ⟨.signed minus (nearest size), steps⟩ := by
  obtain ⟨nesting, shallow, derives⟩ := derivesSigned minus (nearest size)
  have present : Token.signed minus (nearest size) ≠ [] := by cases minus <;> simp [Token.signed]
  have short : (Token.signed minus (nearest size)).length ≤ tokenLimit := by
    cases minus <;> simp [Token.signed, tokenLimit]
  have products := derives.withProducts
  rw [analyseScanned (scanSigned minus number) present, products,
    Expr.ofTokensShallow derives short shallow]
  exact ⟨_, rfl⟩

theorem evaluateSigned (minus : Bool) {x : Float} (infinite : ¬x.isFinite → x.isInf)
    (answer : Float) (unit : AngleUnit) : (Expr.signed minus x).evaluate answer unit =
      if x.isFinite then .ok (if minus then -x else x) else .error .overflow := by
  by_cases finite : x.isFinite
  · have bounded := infOfFinite finite
    have opposite := finiteNeg finite
    cases minus <;> simp [Expr.signed, Expr.evaluate, Expr.compute, bounded, finite, opposite]
  · have beyond := infinite finite
    cases minus <;> simp [Expr.signed, Expr.evaluate, Expr.compute, beyond, finite]

/-- A finite number is the new answer with its sign, and an infinite one is refused. -/
theorem calculateSigned (minus : Bool) (number : Lexeme.NumberText text size [])
    (answer : Float) (unit : AngleUnit) (mode : DisplayMode) :
    calculate (String.ofList (signed minus text)) answer unit mode =
      .ofResult mode (if (nearest size).isFinite then
        .ok (if minus then -nearest size else nearest size)
      else .error (.mathematical .overflow)) := by
  obtain ⟨steps, analysed⟩ := analyseSigned minus number
  have evaluated := evaluateSigned minus (@nearestInf size) answer unit
  rw [calculate, calculateWithSteps, analysed]
  simp only [evaluated]
  split <;> rfl

end

end Calculator
