/-
This file proves that the spelling of a number denotes no other number.
-/

import Calculator.Proofs.Binary64.Closure
import Calculator.Proofs.Decimal.Shortest
import Calculator.Proofs.Retyping.Number

namespace Calculator

open Binary64 Decimal DisplayMode

/-- The spelling of a number consists of these characters. -/
def inLiteral (c : Char) : Bool :=
  Lexeme.inNumeral c || c == 'i' || c == 'n' || c == 'f'

theorem signUnique {minus minusOther : Bool} {first firstOther : Char} {rest restOther : List Char}
    (plain : first ≠ '-') (plainOther : firstOther ≠ '-')
    (same : signed minus (first :: rest) = signed minusOther (firstOther :: restOther)) :
    minus = minusOther := by
  cases minus <;> cases minusOther
  · rfl
  · exact absurd (List.cons.inj same).1 plain
  · exact absurd (List.cons.inj same).1.symm plainOther
  · rfl

theorem Token.signedInjective (minus : Bool) : Function.Injective (Token.signed minus) := by
  intro x y same
  cases minus <;> simpa [Token.signed] using same

section

variable {x y : Float}

/-- The numeral after the sign reads back as the absolute value. -/
theorem spellSigned (finite : x.isFinite) : ∃ whole fraction, Whole whole ∧ Fraction fraction ∧
    spellNumber x = signed (negative x) (whole ++ point fraction) ∧
      (ofDigits whole fraction 0).toFloat = x.abs := by
  cases minus : negative x with
  | false =>
      rw [absPlus minus finite]
      exact spellReads minus finite
  | true =>
      have plus : negative (-x) = false := by rw [negativeNeg finite, minus, Bool.not_true]
      rw [absMinus minus, spellMinus minus finite]
      obtain ⟨whole, fraction, wholeDigits, fractionDigits, text, reads⟩ :=
        spellReads plus (finiteNeg finite)
      exact ⟨whole, fraction, wholeDigits, fractionDigits, congrArg _ text, reads⟩

theorem spellInfinite (infinite : x.isInf) : spellNumber x = signed (negative x) "inf".toList := by
  have number : x.isNaN = false := by
    rw [Bool.eq_false_iff]
    exact fun other => (nanIff.mp other).2 (infIff.mp infinite).2
  simp only [spellNumber, number, infinite, Bool.false_eq_true, if_false, if_true]
  rfl

/-- A sign stands only before the first character of a numeral or of the infinity. -/
theorem spellCharacters (number : x.isNaN = false) :
    ∃ first rest, spellNumber x = signed (negative x) (first :: rest) ∧ first ≠ '-' ∧
      ∀ c ∈ first :: rest, inLiteral c := by
  by_cases infinite : x.isInf
  · exact ⟨'i', ['n', 'f'], spellInfinite infinite, by decide, by simp [inLiteral]⟩
  · have finite := finiteIffNumber.mpr ⟨number, Bool.eq_false_iff.mpr infinite⟩
    obtain ⟨whole, fraction, wholeDigits, fractionDigits, text, _⟩ := spellSigned finite
    have digit (c : Char) (isDigit : c.isDigit) : inLiteral c := by
      simp [inLiteral, Lexeme.inNumeralDigit isDigit]
    have inside := numeralCharacters digit (by decide) wholeDigits.digit fractionDigits.digit
    obtain ⟨first, rest, rfl⟩ := wholeDigits.cons
    refine ⟨first, rest ++ point fraction, text, ?_, inside⟩
    rintro rfl
    exact absurd (wholeDigits.digit '-' (by simp)) (by decide)

theorem spellLiteral (number : x.isNaN = false) : ∀ c ∈ spellNumber x, inLiteral c := by
  obtain ⟨first, rest, spelled, _, inside⟩ := spellCharacters number
  rw [spelled]
  exact signedCharacters (by decide) (negative x) inside

/-- The tokens of a finite number tell its sign and its absolute value. -/
theorem scanSpelled (finite : x.isFinite) :
    Token.scan (String.ofList (spellNumber x)) = .ok (Token.signed (negative x) x.abs) := by
  obtain ⟨whole, fraction, wholeDigits, fractionDigits, text, reads⟩ := spellSigned finite
  have number := Lexeme.numeralText wholeDigits fractionDigits.digit Lexeme.endsNothing
  rw [text, scanSigned _ number, ← toFloatNearest, reads]

/-- The infinity is not typed. -/
theorem scanInfinite (infinite : x.isInf) :
    (Token.scan (String.ofList (spellNumber x))).isOk = false := by
  rw [spellInfinite infinite]
  cases negative x <;> decide +kernel

theorem eqOfInfinite (infinite : x.isInf) (infiniteOther : y.isInf)
    (signs : negative x = negative y) : x = y := by
  obtain ⟨field, fraction⟩ := infIff.mp infinite
  obtain ⟨fieldOther, fractionOther⟩ := infIff.mp infiniteOther
  exact eqOfParts signs (field.trans fieldOther.symm) (fraction.trans fractionOther.symm)

theorem eqOfAbs (finite : x.isFinite) (finiteOther : y.isFinite)
    (signs : negative x = negative y) (sizes : x.abs = y.abs) : x = y := by
  cases minus : negative x with
  | false => rwa [absPlus minus finite, absPlus (signs ▸ minus) finiteOther] at sizes
  | true =>
      rw [absMinus minus, absMinus (signs ▸ minus)] at sizes
      apply eqOfParts signs
      · rw [← fieldNeg finite, sizes, fieldNeg finiteOther]
      · rw [← fractionNeg finite, sizes, fractionNeg finiteOther]

theorem signsOfSpelling (number : x.isNaN = false) (numberOther : y.isNaN = false)
    (same : spellNumber x = spellNumber y) : negative x = negative y := by
  obtain ⟨first, rest, spelled, plain, _⟩ := spellCharacters number
  obtain ⟨firstOther, restOther, spelledOther, plainOther, _⟩ := spellCharacters numberOther
  rw [spelled, spelledOther] at same
  exact signUnique plain plainOther same

/-- Only the spelling of a finite number is scanned. -/
theorem finiteOfSpelling (number : y.isNaN = false) (finite : x.isFinite)
    (same : spellNumber x = spellNumber y) : y.isFinite := by
  refine finiteIffNumber.mpr ⟨number, Bool.eq_false_iff.mpr fun infinite => ?_⟩
  have refused := scanInfinite infinite
  rw [← same, scanSpelled finite] at refused
  cases refused

theorem spellInjective (number : x.isNaN = false) (numberOther : y.isNaN = false)
    (same : spellNumber x = spellNumber y) : x = y := by
  have signs := signsOfSpelling number numberOther same
  by_cases finite : x.isFinite
  · have finiteOther := finiteOfSpelling numberOther finite same
    have scanned := scanSpelled finite
    rw [same, scanSpelled finiteOther, signs] at scanned
    have sizes := Token.signedInjective (negative y) (Except.ok.inj scanned)
    exact eqOfAbs finite finiteOther signs sizes.symm
  · have infinite (z : Float) (number : z.isNaN = false) (other : ¬z.isFinite) : z.isInf := by
      rw [← Bool.not_eq_false]
      exact fun bounded => other (finiteIffNumber.mpr ⟨number, bounded⟩)
    have otherInfinite : ¬y.isFinite := fun finiteOther =>
      finite (finiteOfSpelling number finiteOther same.symm)
    exact eqOfInfinite (infinite x number finite) (infinite y numberOther otherInfinite) signs

end

end Calculator
