/-
This file proves that a display denotes exactly one number.
-/

import Calculator.Proofs.Retyping.Number

namespace Calculator

open Binary64 Decimal

namespace Lexeme

theorem SignedText.unique {chars : List Char} {p q : Rat} (first : SignedText chars p)
    (second : SignedText chars q) : p = q := by
  generalize same : chars = others at second
  cases first with
  | number minus text =>
      cases second with
      | number minusOther textOther =>
          have scanned := scanSigned minus text
          rw [same, scanSigned minusOther textOther] at scanned
          -- The tokens tell the sign, and the text without it denotes one number.
          have signs : minus = minusOther := by
            revert scanned
            cases minus <;> cases minusOther <;> simp [Token.signed]
          subst signs
          rw [List.append_cancel_left same] at text
          rw [text.unique textOther]

end Lexeme

namespace DisplayMode

/-- The mark of an exponent is a small letter in a display and a capital letter on the keypad. -/
def typedCharacter (c : Char) : Char :=
  if c = 'e' then 'E' else c

def typed (text : String) : String :=
  String.ofList (text.toList.map typedCharacter)

/-- A display denotes the number that its typed text denotes. -/
def Shows (text : String) (value : Rat) : Prop :=
  Lexeme.SignedText (typed text).toList value

/-- An exact value is shown with the digits of the mode. -/
def shown (mode : DisplayMode) (q : Rat) : Rat :=
  if q < 0 then -(significant mode.digits (-q)).value else (significant mode.digits q).value

theorem Shows.unique {text : String} {p q : Rat} (first : Shows text p) (second : Shows text q) :
    p = q :=
  Lexeme.SignedText.unique first second

theorem typedPlain {chars : List Char} (plain : ∀ c ∈ chars, Lexeme.inNumeral c) :
    chars.map typedCharacter = chars := by
  refine (List.map_congr_left fun c member => ?_).trans (List.map_id chars)
  have other : c ≠ 'e' := by
    rintro rfl
    exact absurd (plain 'e' member) (by decide)
  rw [typedCharacter, if_neg other, id]

section

variable {whole fraction : List Char}

theorem numeralPlain (wholeDigits : ∀ c ∈ whole, c.isDigit)
    (fractionDigits : ∀ c ∈ fraction, c.isDigit) (minus : Bool) :
    ∀ c ∈ signed minus (whole ++ point fraction), Lexeme.inNumeral c :=
  signedCharacters (by decide) minus
    (numeralCharacters (fun _ => Lexeme.inNumeralDigit) (by decide) wholeDigits fractionDigits)

theorem integerPlain {power : List Char} {exponent : Int} (integer : Integer power exponent) :
    ∀ c ∈ power, Lexeme.inNumeral c := by
  intro c member
  cases integer with
  | nonnegative whole => exact Lexeme.inNumeralDigit (whole.digit c member)
  | negative whole _ =>
      rcases List.mem_cons.mp member with rfl | inside
      · decide
      · exact Lexeme.inNumeralDigit (whole.digit c inside)

/-- The canonical text of a number denotes the number. -/
theorem Denotes.shows {mode : DisplayMode} {text : String} {value : Rat}
    (denotes : mode.Denotes text.toList value) : Shows text value := by
  rw [Shows, typed, String.toList_ofList]
  generalize text.toList = chars at denotes
  cases denotes with
  | @positional minus whole fraction canonical digits =>
      rw [typedPlain (numeralPlain canonical.digit digits.digit minus)]
      exact .number minus (Lexeme.numeralText canonical digits.digit Lexeme.endsNothing)
  | @scientific minus digit fraction power exponent isDigit nonzero digits _ integer =>
      have canonical : Whole [digit] := ⟨by simpa using isDigit, .inr ⟨digit, rfl, nonzero⟩⟩
      have mantissa : (signed minus (digit :: point fraction)).map typedCharacter =
          signed minus (digit :: point fraction) :=
        typedPlain (numeralPlain canonical.digit digits.digit minus)
      have spelled : (signed minus (digit :: point fraction ++ 'e' :: power)).map typedCharacter =
          signed minus (digit :: point fraction ++ 'E' :: power) := by
        rw [signed, ← List.append_assoc, List.map_append, List.map_cons]
        rw [← signed, mantissa, typedPlain (integerPlain integer)]
        simp [signed, typedCharacter]
      rw [spelled]
      exact .number minus (Lexeme.powerText canonical digits.digit integer)

end

section

variable {mode : DisplayMode} {q : Rat}

theorem shownNonnegative (nonnegative : 0 ≤ q) :
    mode.shown q = (significant mode.digits q).value :=
  if_neg (not_lt.mpr nonnegative)

theorem shownZero (mode : DisplayMode) : mode.shown 0 = 0 := by
  rw [shownNonnegative le_rfl, significantZero]

theorem shownOpposite (mode : DisplayMode) (q : Rat) : mode.shown (-q) = -mode.shown q := by
  rcases lt_trichotomy q 0 with below | rfl | above
  · rw [shownNonnegative (by linarith), shown, if_pos below, neg_neg]
  · rw [neg_zero, shownZero, neg_zero]
  · rw [shownNonnegative above.le, shown, if_pos (by linarith), neg_neg]

theorem shownHalf (mode : DisplayMode) (positive : 0 < q) : q < 2 * mode.shown q := by
  rw [shownNonnegative positive.le]
  exact significantHalf mode.digitsPositive positive

theorem shownPositive (positive : 0 < q) : 0 < mode.shown q := by
  rw [shownNonnegative positive.le]
  exact significantPositive mode.digitsPositive positive

theorem shownSign (mode : DisplayMode) (q : Rat) :
    SignType.sign (mode.shown q) = SignType.sign q := by
  rcases lt_trichotomy q 0 with below | rfl | above
  · have opposite : 0 < mode.shown (-q) := shownPositive (neg_pos.mpr below)
    rw [shownOpposite, neg_pos] at opposite
    rw [sign_neg below, sign_neg opposite]
  · rw [shownZero]
  · rw [sign_pos above, sign_pos (shownPositive above)]

theorem shownAbs (mode : DisplayMode) (q : Rat) : |mode.shown q| = mode.shown |q| := by
  rcases le_total 0 q with above | below
  · have shown : 0 ≤ mode.shown q := by rwa [← sign_nonneg_iff, shownSign, sign_nonneg_iff]
    rw [abs_of_nonneg above, abs_of_nonneg shown]
  · have shown : mode.shown q ≤ 0 := by rwa [← sign_nonpos_iff, shownSign, sign_nonpos_iff]
    rw [abs_of_nonpos below, abs_of_nonpos shown, shownOpposite]

/-- The display of a finite number denotes its value with the digits of the mode. -/
theorem renderShows (mode : DisplayMode) {x : Float} (finite : x.isFinite) :
    Shows (mode.render x) (mode.shown (value x)) := by
  by_cases zero : value x = 0
  · rw [zero, shownZero, renderZero mode finite zero]
    cases mode with
    | normal => exact .number false Lexeme.zeroText
    | scientific => exact .number false Lexeme.zeroPowerText
  · have present : significand x ≠ 0 := fun none => zero (valueZero.mpr none)
    obtain ⟨k, N, rounds⟩ := roundsExists mode.digits (magnitudePos.mpr present)
    obtain ⟨trimmed, short, _⟩ := significantTrimmed mode rounds
    have denotes := layoutDenotes mode (negative x) trimmed short
    rw [← renderNonzero mode finite zero, trimValue,
      ← shownNonnegative (magnitudeNonneg x), ← shownOpposite, ← apply_ite mode.shown] at denotes
    exact denotes.shows

theorem showsIff (mode : DisplayMode) {x : Float} (finite : x.isFinite) (r : Rat) :
    Shows (mode.render x) r ↔ r = mode.shown (value x) := by
  constructor
  · intro shows
    exact shows.unique (renderShows mode finite)
  · rintro rfl
    exact renderShows mode finite

end

end DisplayMode

end Calculator
