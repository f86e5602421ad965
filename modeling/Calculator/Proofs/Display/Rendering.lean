/-
This file proves that the display of a number is the canonical text of its rounded value.
-/

import Calculator.Display
import Calculator.Proofs.Binary64.Value
import Calculator.Proofs.Decimal.Layout
import Calculator.Proofs.Decimal.Significant

namespace Calculator.DisplayMode

open Decimal Rational

theorem digitsPositive (mode : DisplayMode) : 0 < mode.digits := by
  cases mode <;> decide

/-- A minus sign may stand before a text. -/
def signed (minus : Bool) (text : List Char) : List Char :=
  (if minus then ['-'] else []) ++ text

theorem signedCharacters {p : Char → Prop} (sign : p '-') (minus : Bool) {text : List Char}
    (inside : ∀ c ∈ text, p c) : ∀ c ∈ signed minus text, p c := by
  intro c member
  cases minus with
  | false => exact inside c member
  | true =>
      rcases List.mem_cons.mp member with rfl | after
      · exact sign
      · exact inside c after

/-- A canonical text of a mode denotes one rational number. -/
inductive Denotes : DisplayMode → List Char → Rat → Prop where
  | positional (minus : Bool) {whole fraction : List Char} : Whole whole → Fraction fraction →
      Denotes .normal (signed minus (whole ++ point fraction))
        (if minus then -(ofDigits whole fraction 0).value else (ofDigits whole fraction 0).value)
  | scientific (minus : Bool) {digit : Char} {fraction power : List Char} {exponent : Int} :
      digit.isDigit → digit ≠ '0' → Fraction fraction → fraction.length ≤ 5 →
      Integer power exponent →
      Denotes .scientific (signed minus (digit :: point fraction ++ 'e' :: power))
        (if minus then -(ofDigits [digit] fraction exponent).value
          else (ofDigits [digit] fraction exponent).value)

/-- A trimmed decimal number is laid out as its value. -/
theorem layoutDenotes (mode : DisplayMode) (minus : Bool) {d : Decimal} (trimmed : d.Trimmed)
    (short : d.coefficient < 10 ^ mode.digits) :
    mode.Denotes (signed minus (mode.layout d)) (if minus then -d.value else d.value) := by
  cases mode with
  | normal =>
      obtain ⟨whole, fraction, wholeDigits, fractionDigits, text, same⟩ :=
        positionalCanonical trimmed
      rw [layout, text, ← same]
      exact .positional minus wholeDigits fractionDigits
  | scientific =>
      obtain ⟨digit, fraction, isDigit, nonzero, fractionDigits, spelled, text, same⟩ :=
        mantissaCanonical trimmed
      have length : d.digits.length ≤ 6 :=
        (Nat.length_toDigits_le_iff (by decide) (by decide)).mpr short
      rw [spelled, List.length_cons] at length
      rw [layout, text, ← same]
      exact .scientific minus isDigit nonzero fractionDigits (by omega) (integerCanonical d.lead)

/-- The rounded digits without their trailing zeros have the rounded value. -/
theorem significantTrimmed (mode : DisplayMode) {x : Rat} {k N : Int}
    (rounds : Rounds mode.digits x k N) :
    (significant mode.digits x).trim.Trimmed ∧
      (significant mode.digits x).trim.coefficient < 10 ^ mode.digits ∧
      (significant mode.digits x).trim.value = N * 10 ^ (k - mode.digits + 1) := by
  have counted := mode.digitsPositive
  obtain ⟨low, high⟩ := significantBounds rounds counted
  have positive : 0 < (significant mode.digits x).coefficient :=
    Nat.lt_of_lt_of_le (Nat.pow_pos (by decide)) low
  refine ⟨trimTrimmed positive, Nat.lt_of_le_of_lt (trimCoefficient _) high, ?_⟩
  rw [trimValue, significantValue rounds counted]

variable {x : Float}

theorem renderZero (mode : DisplayMode) (finite : x.isFinite) (zero : Binary64.value x = 0) :
    mode.render x = match mode with
      | .normal => "0"
      | .scientific => "0e0" := by
  rw [render, spell, if_pos finite, if_pos (Binary64.valueZero.mp zero)]
  cases mode <;> decide

theorem renderNonzero (mode : DisplayMode) (finite : x.isFinite) (nonzero : Binary64.value x ≠ 0) :
    (mode.render x).toList = signed (Binary64.negative x)
      (mode.layout (significant mode.digits (Binary64.magnitude x)).trim) := by
  have present : Binary64.significand x ≠ 0 := fun zero => nonzero (Binary64.valueZero.mpr zero)
  rw [render, spell, if_pos finite, if_neg present, String.toList_ofList]
  rfl

/-- The display of a finite number is the canonical text of the number rounded to ten digits in the
normal mode and to six in the scientific mode, and both zeros have one text. -/
theorem renderDenotes (mode : DisplayMode) (x : Float) (finite : x.isFinite) :
    let count : Int := match mode with
      | .normal => 10
      | .scientific => 6
    (Binary64.value x = 0 → mode.render x = match mode with
      | .normal => "0"
      | .scientific => "0e0") ∧
    (Binary64.value x ≠ 0 → ∃ k N : Int,
      (InDecade 10 |Binary64.value x| k ∧ ∀ j, InDecade 10 |Binary64.value x| j → j = k) ∧
      (NearestEven (|Binary64.value x| * 10 ^ (count - 1 - k)) N ∧
        ∀ M, NearestEven (|Binary64.value x| * 10 ^ (count - 1 - k)) M → M = N) ∧
      mode.Denotes (mode.render x).toList
        ((if Binary64.value x < 0 then -N else N) * 10 ^ (k - count + 1))) := by
  intro count
  have counts : count = mode.digits := by cases mode <;> rfl
  rw [counts]
  refine ⟨renderZero mode finite, fun nonzero => ?_⟩
  have present : Binary64.significand x ≠ 0 := fun zero => nonzero (Binary64.valueZero.mpr zero)
  rw [Binary64.absValue, renderNonzero mode finite nonzero]
  obtain ⟨k, N, rounds⟩ := roundsExists mode.digits (Binary64.magnitudePos.mpr present)
  obtain ⟨trimmed, short, same⟩ := significantTrimmed mode rounds
  refine ⟨k, N, ⟨rounds.decade, fun j other => other.unique (by decide) rounds.decade⟩,
    ⟨rounds.nearest, fun M other => other.unique rounds.nearest⟩, ?_⟩
  have shown := layoutDenotes mode (Binary64.negative x) trimmed short
  rw [same] at shown
  simp only [Binary64.valueNeg present]
  cases sign : Binary64.negative x with
  | true =>
      rw [sign] at shown
      simpa only [if_true, Int.cast_neg, neg_mul] using shown
  | false =>
      rw [sign] at shown
      simpa only [Bool.false_eq_true, if_false] using shown

/-- The tie above 9999999999 goes to the even side and carries into the next decade. -/
theorem renderDenotesCarry : ∃ k N : Int,
    InDecade 10 |Binary64.value (Float.ofBits 0x4202A05F1FFC0000)| k ∧
      NearestEven (|Binary64.value (Float.ofBits 0x4202A05F1FFC0000)| * 10 ^ (10 - 1 - k)) N ∧
      DisplayMode.normal.Denotes "10000000000".toList (N * 10 ^ (k - 10 + 1)) := by
  have finite : (Float.ofBits 0x4202A05F1FFC0000).isFinite := by decide
  have nonzero : Binary64.value (Float.ofBits 0x4202A05F1FFC0000) ≠ 0 := by decide +kernel
  have plus : ¬Binary64.value (Float.ofBits 0x4202A05F1FFC0000) < 0 := by decide +kernel
  have text : DisplayMode.normal.render (Float.ofBits 0x4202A05F1FFC0000) = "10000000000" := by
    decide +kernel
  obtain ⟨k, N, ⟨decade, _⟩, ⟨nearest, _⟩, shown⟩ :=
    (renderDenotes .normal (Float.ofBits 0x4202A05F1FFC0000) finite).2 nonzero
  rw [text, if_neg plus] at shown
  exact ⟨k, N, decade, nearest, shown⟩

end Calculator.DisplayMode
