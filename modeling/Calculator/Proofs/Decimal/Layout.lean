/-
This file proves that the digits of a decimal number are written in a canonical form.
-/

import Calculator.Decimal.Layout
import Calculator.Proofs.Decimal.Canonical

namespace Calculator.Decimal

/-- No superfluous zero stands before these digits. -/
structure Whole (digits : List Char) : Prop where
  digit : ∀ c ∈ digits, c.isDigit
  first : digits = ['0'] ∨ ∃ c ∈ digits.head?, c ≠ '0'

theorem Whole.cons {digits : List Char} (whole : Whole digits) : ∃ c rest, digits = c :: rest := by
  cases digits with
  | nil => rcases whole.first with absurd | ⟨_, absurd, _⟩ <;> cases absurd
  | cons c rest => exact ⟨c, rest, rfl⟩

/-- No zero stands at the end of these digits, and there may be none. -/
structure Fraction (digits : List Char) : Prop where
  digit : ∀ c ∈ digits, c.isDigit
  last : '0' ∉ digits.getLast?

/-- A point stands before the digits of a fraction, and no point without a digit after it. -/
def point (fraction : List Char) : List Char :=
  if fraction.isEmpty then [] else '.' :: fraction

/-- What holds of the digits and of the point holds of every character of a numeral. -/
theorem numeralCharacters {p : Char → Prop} (digit : ∀ c, c.isDigit → p c) (dot : p '.')
    {whole fraction : List Char} (wholeDigits : ∀ c ∈ whole, c.isDigit)
    (fractionDigits : ∀ c ∈ fraction, c.isDigit) : ∀ c ∈ whole ++ point fraction, p c := by
  intro c member
  rcases List.mem_append.mp member with inside | after
  · exact digit c (wholeDigits c inside)
  · rw [point] at after
    split at after
    · cases after
    · rcases List.mem_cons.mp after with rfl | inside
      · exact dot
      · exact digit c (fractionDigits c inside)

/-- An integer has neither a plus sign nor a superfluous zero, and zero has no sign. -/
inductive Integer : List Char → Int → Prop where
  | nonnegative {digits : List Char} : Whole digits →
      Integer digits (Nat.ofDigitChars 10 digits 0)
  | negative {digits : List Char} : Whole digits → digits ≠ ['0'] →
      Integer ('-' :: digits) (-(Nat.ofDigitChars 10 digits 0 : Nat))

theorem digitsFirst {n : Nat} (positive : 0 < n) : ∃ c ∈ (Nat.toDigits 10 n).head?, c ≠ '0' := by
  induction n using Nat.strong_induction_on with
  | _ n inductionHypothesis =>
      by_cases small : n < 10
      · rw [Nat.toDigits_of_lt_base small]
        refine ⟨n.digitChar, rfl, ?_⟩
        have digits : ∀ n < 10, 0 < n → n.digitChar ≠ '0' := by decide
        exact digits n small positive
      · have front := inductionHypothesis (n / 10) (by omega) (by omega)
        obtain ⟨c, member, nonzero⟩ := front
        rw [Nat.toDigits_of_base_le (by decide) (Nat.le_of_not_lt small)]
        refine ⟨c, ?_, nonzero⟩
        rw [List.head?_append, Option.mem_def.mp member]
        rfl

theorem digitsWhole (n : Nat) : Whole (Nat.toDigits 10 n) where
  digit _ member := Nat.isDigit_of_mem_toDigits (by decide) (by decide) member
  first := by
    rcases Nat.eq_zero_or_pos n with rfl | positive
    · left
      rfl
    · right
      exact digitsFirst positive

theorem digitsLast {n : Nat} (trimmed : n % 10 ≠ 0) : '0' ∉ (Nat.toDigits 10 n).getLast? := by
  have digits : ∀ n < 10, n ≠ 0 → '0' ≠ n.digitChar := by decide
  have last : (Nat.toDigits 10 n).getLast? = some (n % 10).digitChar := by
    by_cases small : n < 10
    · rw [Nat.toDigits_of_lt_base small, Nat.mod_eq_of_lt small]
      rfl
    · rw [Nat.toDigits_of_base_le (by decide) (Nat.le_of_not_lt small), List.getLast?_concat]
  rw [last]
  intro member
  exact digits _ (Nat.mod_lt n (by decide)) trimmed (Option.some.inj member).symm

theorem integerCanonical (n : Int) : Integer (integer n) n := by
  have size : Nat.ofDigitChars 10 (Nat.toDigits 10 n.natAbs) 0 = n.natAbs :=
    Nat.ofDigitChars_ten_toDigits
  rw [integer]
  split
  · next below =>
    have present : Nat.toDigits 10 n.natAbs ≠ ['0'] := by
      intro zero
      rw [zero] at size
      have : n.natAbs = 0 := size.symm
      omega
    have negative := Integer.negative (digitsWhole n.natAbs) present
    rwa [size, show -(n.natAbs : Int) = n by omega] at negative
  · next above =>
    have nonnegative := Integer.nonnegative (digitsWhole n.natAbs)
    rwa [size, show (n.natAbs : Int) = n by omega] at nonnegative

section

variable {d : Decimal}

theorem digitsValue (d : Decimal) : Nat.ofDigitChars 10 d.digits 0 = d.coefficient :=
  Nat.ofDigitChars_ten_toDigits

theorem digitsDigit (d : Decimal) : ∀ c ∈ d.digits, c.isDigit :=
  (digitsWhole d.coefficient).digit

/-- Every number has a first digit. -/
theorem digitsCons (d : Decimal) : ∃ c rest, d.digits = c :: rest ∧ c.isDigit := by
  obtain ⟨c, rest, spelled⟩ := (digitsWhole d.coefficient).cons
  exact ⟨c, rest, spelled, digitsDigit d c (by rw [digits, spelled]; simp)⟩

theorem mantissaStarts (d : Decimal) : ∃ c ∈ d.mantissa.head?, c.isDigit := by
  obtain ⟨c, rest, spelled, digit⟩ := digitsCons d
  rw [mantissa, spelled]
  cases rest <;> exact ⟨c, rfl, digit⟩

theorem positionalStarts (d : Decimal) : ∃ c ∈ d.positional.head?, c.isDigit := by
  obtain ⟨c, rest, spelled, digit⟩ := digitsCons d
  simp only [positional, spelled]
  split
  · exact ⟨c, rfl, digit⟩
  · split
    · next inside =>
      obtain ⟨whole, size⟩ := Nat.exists_eq_succ_of_ne_zero (Nat.ne_of_gt inside)
      rw [size]
      exact ⟨c, rfl, digit⟩
    · exact ⟨'0', rfl, by decide⟩

theorem Trimmed.positive (trimmed : d.Trimmed) : 0 < d.coefficient := by
  apply Nat.pos_of_ne_zero
  intro zero
  exact trimmed (by rw [zero])

/-- A number without places ends with zeros before the point. -/
theorem integralCanonical (trimmed : d.Trimmed) (integral : 0 ≤ d.exponent) :
    Whole (d.digits ++ List.replicate d.exponent.toNat '0') ∧
      (ofDigits (d.digits ++ List.replicate d.exponent.toNat '0') [] 0).value = d.value := by
  obtain ⟨c, member, nonzero⟩ := digitsFirst trimmed.positive
  refine ⟨⟨fun c inside => ?_, .inr ⟨c, ?_, nonzero⟩⟩, ?_⟩
  · rcases List.mem_append.mp inside with digit | zero
    · exact digitsDigit d c digit
    · rw [List.eq_of_mem_replicate zero]
      decide
  · rw [digits, List.head?_append, Option.mem_def.mp member]
    rfl
  · obtain ⟨places, exponent⟩ : ∃ places : Nat, d.exponent = places :=
      ⟨d.exponent.toNat, by omega⟩
    rw [value, value, ofDigits, List.append_nil, Nat.ofDigitChars_append, digitsValue,
      Nat.ofDigitChars_replicate_zero, exponent]
    simp only [Int.toNat_natCast, List.length_nil, Nat.cast_zero, sub_zero, zpow_zero, mul_one,
      zpow_natCast]
    push_cast
    ring

/-- The digits of a number with places go on after the point. -/
theorem fractionCanonical {places : Nat} (exponent : d.exponent = -places)
    {whole fraction : List Char} (length : fraction.length = places)
    (spelled : Nat.ofDigitChars 10 (whole ++ fraction) 0 = d.coefficient) :
    (ofDigits whole fraction 0).value = d.value := by
  rw [ofDigits, spelled, length, value, value, exponent, zero_sub]

/-- The point may stand between two digits. -/
theorem insideCanonical (trimmed : d.Trimmed) {places : Nat} (exponent : d.exponent = -places)
    (inside : places < d.digits.length) :
    Whole (d.digits.take (d.digits.length - places)) ∧
      Fraction (d.digits.drop (d.digits.length - places)) ∧
      (ofDigits (d.digits.take (d.digits.length - places))
        (d.digits.drop (d.digits.length - places)) 0).value = d.value := by
  obtain ⟨c, member, nonzero⟩ := digitsFirst trimmed.positive
  have length : (d.digits.drop (d.digits.length - places)).length = places := by
    rw [List.length_drop]
    omega
  refine ⟨⟨fun c member => digitsDigit d c (List.mem_of_mem_take member), .inr ⟨c, ?_, nonzero⟩⟩,
    ⟨fun c member => digitsDigit d c (List.mem_of_mem_drop member), ?_⟩,
    fractionCanonical exponent length ?_⟩
  · rw [List.head?_take, if_neg (by omega)]
    exact member
  · rw [List.getLast?_drop]
    split
    · simp
    · exact digitsLast trimmed
  · rw [List.take_append_drop, digitsValue]

/-- The point may stand before every digit, with zeros between them. -/
theorem outsideCanonical (trimmed : d.Trimmed) {places : Nat} (exponent : d.exponent = -places)
    (outside : d.digits.length ≤ places) :
    Fraction (List.replicate (places - d.digits.length) '0' ++ d.digits) ∧
      (ofDigits ['0'] (List.replicate (places - d.digits.length) '0' ++ d.digits) 0).value =
        d.value := by
  have length : (List.replicate (places - d.digits.length) '0' ++ d.digits).length = places := by
    rw [List.length_append, List.length_replicate]
    omega
  refine ⟨⟨fun c member => ?_, ?_⟩, fractionCanonical exponent length ?_⟩
  · rcases List.mem_append.mp member with zero | digit
    · rw [List.eq_of_mem_replicate zero]
      decide
    · exact digitsDigit d c digit
  · have present : d.digits ≠ [] := Nat.toDigits_ne_nil
    rw [List.getLast?_append, List.getLast?_eq_some_getLast present, Option.some_or,
      ← List.getLast?_eq_some_getLast present]
    exact digitsLast trimmed
  · have zeros : Nat.ofDigitChars 10 ['0'] 0 = 0 := rfl
    rw [Nat.ofDigitChars_append, Nat.ofDigitChars_append, zeros, Nat.ofDigitChars_replicate_zero,
      Nat.mul_zero, digitsValue]

/-- The positional text has the value of the number. -/
theorem positionalCanonical (trimmed : d.Trimmed) :
    ∃ whole fraction, Whole whole ∧ Fraction fraction ∧
      d.positional = whole ++ point fraction ∧ (ofDigits whole fraction 0).value = d.value := by
  rw [positional]
  split
  · next integral =>
    obtain ⟨whole, same⟩ := integralCanonical trimmed integral
    exact ⟨_, [], whole, ⟨by simp, by simp⟩, by simp [point], same⟩
  · next fractional =>
    obtain ⟨places, exponent, positive⟩ : ∃ places : Nat, d.exponent = -places ∧ 0 < places :=
      ⟨(-d.exponent).toNat, by omega, by omega⟩
    simp only [exponent, neg_neg, Int.toNat_natCast]
    split
    · next inside =>
      obtain ⟨whole, fraction, same⟩ := insideCanonical trimmed exponent (by omega)
      have pointed : (d.digits.drop (d.digits.length - places)).isEmpty = false := by
        rw [← Bool.not_eq_true, List.isEmpty_iff_length_eq_zero, List.length_drop]
        omega
      exact ⟨_, _, whole, fraction, by simp [point, pointed], same⟩
    · next outside =>
      obtain ⟨fraction, same⟩ := outsideCanonical trimmed exponent (by omega)
      have pointed : (List.replicate (places - d.digits.length) '0' ++ d.digits).isEmpty =
          false := by
        rw [← Bool.not_eq_true, List.isEmpty_iff_length_eq_zero, List.length_append]
        have := Nat.length_toDigits_pos (b := 10) (n := d.coefficient)
        rw [digits]
        omega
      refine ⟨['0'], _, ⟨by simp, .inl rfl⟩, fraction, ?_, same⟩
      simp only [point, pointed, Bool.false_eq_true, if_false]
      rfl

/-- The mantissa has the value of the number without the exponent of the first digit. -/
theorem mantissaCanonical (trimmed : d.Trimmed) :
    ∃ digit fraction, digit.isDigit ∧ digit ≠ '0' ∧ Fraction fraction ∧
      d.digits = digit :: fraction ∧ d.mantissa = digit :: point fraction ∧
      (ofDigits [digit] fraction d.lead).value = d.value := by
  have last : '0' ∉ d.digits.getLast? := digitsLast trimmed
  have digit := digitsDigit d
  obtain ⟨c, member, nonzero⟩ := digitsFirst trimmed.positive
  cases spelled : d.digits with
  | nil =>
      rw [← digits, spelled] at member
      cases member
  | cons first fraction =>
      rw [← digits, spelled] at member
      obtain rfl : first = c := Option.some.inj member
      rw [spelled] at last digit
      refine ⟨first, fraction, digit first List.mem_cons_self, nonzero,
        ⟨fun c inside => digit c (List.mem_cons_of_mem first inside), ?_⟩, rfl, ?_, ?_⟩
      · intro zero
        apply last
        rw [List.getLast?_cons]
        simp [Option.mem_def.mp zero]
      · rw [mantissa, spelled]
        cases fraction <;> rfl
      · have same := digitsValue d
        rw [spelled] at same
        rw [ofDigits, List.singleton_append, same, value, value, lead, spelled, List.length_cons]
        congr 2
        push_cast
        ring

end

end Calculator.Decimal
