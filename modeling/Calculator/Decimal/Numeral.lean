/-
This file reads decimal numbers from the characters of a text.
-/

import Calculator.Decimal.Basic

namespace Calculator.Numeral

/-- A number starts with a digit, or with a point before a digit. -/
def starts (first : Char) (rest : List Char) : Bool :=
  first.isDigit || (first == '.' && rest.head?.any Char.isDigit)

/-- The digits after a point belong to the number, and there may be none. -/
def fraction : List Char → List Char × List Char
  | '.' :: rest => (rest.takeWhile Char.isDigit, rest.dropWhile Char.isDigit)
  | chars => ([], chars)

/-- The flag says that the sign is a minus. -/
def sign : List Char → Bool × List Char
  | '+' :: rest => (false, rest)
  | '-' :: rest => (true, rest)
  | chars => (false, chars)

/-- An exponent has digits after its mark and its sign. Without them the fault is what follows
the sign. -/
def power (isMark : Char → Bool) : List Char → Except (List Char) (Int × List Char)
  | [] => .ok (0, [])
  | first :: rest =>
    if isMark first then
      let signed := sign rest
      let digits := signed.2.takeWhile Char.isDigit
      let size : Int := Nat.ofDigitChars 10 digits 0
      if digits.isEmpty then .error signed.2
      else .ok (if signed.1 then -size else size, signed.2.dropWhile Char.isDigit)
    else .ok (0, first :: rest)

/-- A number takes as many characters as it can. -/
def read (isMark : Char → Bool) (chars : List Char) : Except (List Char) (Decimal × List Char) :=
  let whole := chars.takeWhile Char.isDigit
  let fractional := fraction (chars.dropWhile Char.isDigit)
  match power isMark fractional.2 with
  | .ok (exponent, rest) => .ok (Decimal.ofDigits whole fractional.1 exponent, rest)
  | .error rest => .error rest

/-- A whole text may be a number with a sign, and it may name the infinity or no number. -/
def float? (text : String) : Option Float :=
  let signed := sign text.toList
  let letters := String.ofList (signed.2.map Char.toLower)
  let size :=
    if letters = "inf" || letters = "infinity" then some Binary64.infinity
    else if letters = "nan" then some (Float.ofBits 0x7FF8000000000000)
    else match signed.2 with
      | first :: rest =>
        if starts first rest then
          match read (fun c => c == 'e' || c == 'E') (first :: rest) with
          | .ok (decimal, []) => some decimal.toFloat
          | _ => none
        else none
      | [] => none
  size.map fun size => if signed.1 then -size else size

theorem dropDigitsLength (chars : List Char) :
    (chars.dropWhile Char.isDigit).length ≤ chars.length :=
  (List.dropWhile_sublist _).length_le

theorem fractionLength (chars : List Char) : (fraction chars).2.length ≤ chars.length := by
  unfold fraction
  split
  · have := dropDigitsLength ‹_›
    simp only [List.length_cons]
    omega
  · exact Nat.le_refl _

theorem signLength (chars : List Char) : (sign chars).2.length ≤ chars.length := by
  unfold sign
  split <;> simp

theorem powerLength {isMark : Char → Bool} {chars after : List Char} {exponent : Int}
    (taken : power isMark chars = .ok (exponent, after)) : after.length ≤ chars.length := by
  unfold power at taken
  split at taken
  · simp only [Except.ok.injEq, Prod.mk.injEq] at taken
    exact taken.2 ▸ Nat.le_refl _
  · rename_i first rest
    split at taken
    · simp only at taken
      split at taken
      · exact absurd taken (by simp)
      · simp only [Except.ok.injEq, Prod.mk.injEq] at taken
        have signed := signLength rest
        have digits := dropDigitsLength (sign rest).2
        rw [← taken.2, List.length_cons]
        omega
    · simp only [Except.ok.injEq, Prod.mk.injEq] at taken
      exact taken.2 ▸ Nat.le_refl _

/-- A number takes its first character. -/
theorem readLength {isMark : Char → Bool} {first : Char} {rest after : List Char}
    {decimal : Decimal} (started : starts first rest)
    (taken : read isMark (first :: rest) = .ok (decimal, after)) : after.length ≤ rest.length := by
  have head : (fraction ((first :: rest).dropWhile Char.isDigit)).2.length ≤ rest.length := by
    by_cases digit : first.isDigit
    · have fractional := fractionLength (rest.dropWhile Char.isDigit)
      have digits := dropDigitsLength rest
      rw [List.dropWhile_cons_of_pos digit]
      omega
    · have point : first = '.' := by
        simp only [starts, Bool.or_eq_true, Bool.and_eq_true, beq_iff_eq] at started
        exact (started.resolve_left digit).1
      subst point
      rw [List.dropWhile_cons_of_neg digit]
      exact dropDigitsLength rest
  unfold read at taken
  simp only at taken
  split at taken
  · rename_i exponent tail reached
    simp only [Except.ok.injEq, Prod.mk.injEq] at taken
    have := powerLength reached
    rw [← taken.2]
    omega
  · exact absurd taken (by simp)

end Calculator.Numeral
