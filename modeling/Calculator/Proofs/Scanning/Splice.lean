/-
This file proves that a change of a text between its pieces does not change the pieces.
-/

import Calculator.Token.Lexeme

namespace Calculator.Lexeme

/-- A numeral may hold this character. -/
def inNumeral (c : Char) : Bool :=
  c.isDigit || c == '.' || c == 'E' || c == '+' || c == '-'

/-- No numeral and no word goes on with a boundary. -/
def boundary (c : Char) : Bool :=
  !inNumeral c && words.all fun word => !word.spelling.contains c

/-- No numeral goes on with these characters. -/
def EndsNumeral (chars : List Char) : Prop :=
  ∀ c ∈ chars.head?, inNumeral c = false

/-- A splice copies a text up to its places. At a place, and at the end of the text, it goes on
with a boundary. -/
structure Splice where
  change : List Char → List Char
  place : List Char → Bool
  copies : ∀ c rest, place (c :: rest) = false → change (c :: rest) = c :: change rest
  stops : ∀ chars, chars = [] ∨ place chars → ∀ c ∈ (change chars).head?, boundary c
  starts : ∀ chars, place chars → chars.head? = some 'A'

theorem notInNumeral {c : Char} (bound : boundary c) : inNumeral c = false := by
  simp only [boundary, Bool.and_eq_true, Bool.not_eq_true'] at bound
  exact bound.1

theorem inNumeralDigit {c : Char} (digit : c.isDigit) : inNumeral c := by
  simp [inNumeral, digit]

theorem fractionWithout {chars : List Char} (without : '.' ∉ chars.head?) :
    Numeral.fraction chars = ([], chars) := by
  unfold Numeral.fraction
  split
  · exact absurd rfl without
  · rfl

theorem signWithout {chars : List Char} (plus : '+' ∉ chars.head?) (minus : '-' ∉ chars.head?) :
    Numeral.sign chars = (false, chars) := by
  unfold Numeral.sign
  split
  · exact absurd rfl plus
  · exact absurd rfl minus
  · rfl

theorem powerWithout {chars : List Char} (without : 'E' ∉ chars.head?) :
    Numeral.power (· == 'E') chars = .ok (0, chars) := by
  cases chars with
  | nil => rfl
  | cons c rest =>
      have other : c ≠ 'E' := fun same => without (by simp [same])
      simp [Numeral.power, other]

namespace EndsNumeral

variable {chars : List Char}

theorem noDigit (ends : EndsNumeral chars) : chars.head?.any Char.isDigit = false := by
  cases chars with
  | nil => rfl
  | cons c rest =>
      have other := ends c rfl
      simp only [inNumeral, Bool.or_eq_false_iff] at other
      simpa using other.1.1.1.1

theorem takeDigits (ends : EndsNumeral chars) : chars.takeWhile Char.isDigit = [] := by
  cases chars with
  | nil => rfl
  | cons c rest =>
      have other : c.isDigit = false := ends.noDigit
      simp [other]

theorem dropDigits (ends : EndsNumeral chars) : chars.dropWhile Char.isDigit = chars := by
  cases chars with
  | nil => rfl
  | cons c rest =>
      have other : c.isDigit = false := ends.noDigit
      simp [other]

theorem without (ends : EndsNumeral chars) {c : Char} (part : inNumeral c) :
    c ∉ chars.head? :=
  fun member => absurd part (by simp [ends c member])

theorem fraction (ends : EndsNumeral chars) : Numeral.fraction chars = ([], chars) :=
  fractionWithout (ends.without (by decide))

theorem sign (ends : EndsNumeral chars) : Numeral.sign chars = (false, chars) :=
  signWithout (ends.without (by decide)) (ends.without (by decide))

theorem power (ends : EndsNumeral chars) : Numeral.power (· == 'E') chars = .ok (0, chars) :=
  powerWithout (ends.without (by decide))

end EndsNumeral

/-- Both outcomes of reading a part of a numeral have a rest. -/
def restOf {A : Type} : Except (List Char) (A × List Char) → List Char
  | .ok (_, rest) => rest
  | .error rest => rest

/-- A numeral takes the characters before the rest. -/
def Taken (chars rest : List Char) : Prop :=
  ∃ before, chars = before ++ rest ∧ ∀ c ∈ before, inNumeral c

namespace Taken

variable {chars middle rest : List Char}

theorem refl (chars : List Char) : Taken chars chars :=
  ⟨[], rfl, by simp⟩

theorem trans (first : Taken chars middle) (second : Taken middle rest) : Taken chars rest := by
  obtain ⟨before, rfl, plain⟩ := first
  obtain ⟨between, rfl, others⟩ := second
  refine ⟨before ++ between, by simp, fun c member => ?_⟩
  rcases List.mem_append.mp member with early | late
  · exact plain c early
  · exact others c late

theorem cons {c : Char} (part : inNumeral c) (taken : Taken chars rest) :
    Taken (c :: chars) rest :=
  trans ⟨[c], rfl, by simpa using part⟩ taken

theorem digits (chars : List Char) : Taken chars (chars.dropWhile Char.isDigit) :=
  ⟨chars.takeWhile Char.isDigit, List.takeWhile_append_dropWhile.symm,
    fun _ member => inNumeralDigit (List.all_eq_true.mp List.all_takeWhile _ member)⟩

theorem fraction (chars : List Char) : Taken chars (Numeral.fraction chars).2 := by
  unfold Numeral.fraction
  split
  · exact (digits _).cons (by decide)
  · exact refl _

theorem sign (chars : List Char) : Taken chars (Numeral.sign chars).2 := by
  unfold Numeral.sign
  split
  · exact (refl _).cons (by decide)
  · exact (refl _).cons (by decide)
  · exact refl _

theorem power (chars : List Char) : Taken chars (restOf (Numeral.power (· == 'E') chars)) := by
  cases chars with
  | nil => exact refl _
  | cons c rest =>
      by_cases mark : c = 'E'
      · subst mark
        have signed : Taken ('E' :: rest) (Numeral.sign rest).2 := (sign rest).cons (by decide)
        by_cases empty : ((Numeral.sign rest).2.takeWhile Char.isDigit).isEmpty
        · simpa only [Numeral.power, beq_self_eq_true, if_true, empty, restOf] using signed
        · simpa only [Numeral.power, beq_self_eq_true, if_true, empty, Bool.false_eq_true, if_false,
            restOf] using signed.trans (digits _)
      · simp only [Numeral.power, beq_iff_eq, mark, if_false]
        exact refl _

theorem read (chars : List Char) : Taken chars (restOf (Numeral.read (· == 'E') chars)) := by
  have fractional := (digits chars).trans (fraction _)
  have powered := fractional.trans (power _)
  simp only [Numeral.read]
  cases result : Numeral.power (· == 'E') (Numeral.fraction (chars.dropWhile Char.isDigit)).2 with
  | ok value => simpa only [result, restOf] using powered
  | error rest => simpa only [result, restOf] using powered

end Taken

namespace Splice

variable (splice : Splice)

/-- A splice copies a character, or no numeral goes on in either text. -/
theorem copiesOrStops (chars : List Char) :
    (∃ c rest, chars = c :: rest ∧ splice.change chars = c :: splice.change rest) ∨
      EndsNumeral chars ∧ EndsNumeral (splice.change chars) := by
  cases chars with
  | nil =>
      right
      exact ⟨by simp [EndsNumeral], fun c member =>
        notInNumeral (splice.stops [] (.inl rfl) c member)⟩
  | cons c rest =>
      by_cases place : splice.place (c :: rest)
      · right
        have head := splice.starts _ place
        cases head
        exact ⟨by simp [EndsNumeral, inNumeral], fun c member =>
          notInNumeral (splice.stops _ (.inr place) c member)⟩
      · left
        exact ⟨c, rest, rfl, splice.copies c rest (by simpa using place)⟩

/-- Every character but the first of a place is copied. -/
theorem copiesAll {first : List Char} (plain : ∀ c ∈ first, c ≠ 'A') (second : List Char) :
    splice.change (first ++ second) = first ++ splice.change second := by
  induction first with
  | nil => rfl
  | cons c rest tail =>
      have here : splice.place (c :: (rest ++ second)) = false := by
        rw [Bool.eq_false_iff]
        intro place
        have head := splice.starts _ place
        simp only [List.head?_cons, Option.some.injEq] at head
        exact plain c (by simp) head
      rw [List.cons_append, splice.copies _ _ here,
        tail fun other member => plain other (by simp [member])]
      rfl

theorem takeDigits (chars : List Char) :
    (splice.change chars).takeWhile Char.isDigit = chars.takeWhile Char.isDigit := by
  induction chars with
  | nil =>
      rcases splice.copiesOrStops [] with ⟨_, _, same, _⟩ | ⟨_, ends⟩
      · cases same
      · exact ends.takeDigits
  | cons c rest tail =>
      rcases splice.copiesOrStops (c :: rest) with ⟨_, _, same, copied⟩ | ⟨here, ends⟩
      · cases same
        rw [copied, List.takeWhile_cons, List.takeWhile_cons, tail]
      · rw [here.takeDigits, ends.takeDigits]

theorem dropDigits (chars : List Char) :
    (splice.change chars).dropWhile Char.isDigit =
      splice.change (chars.dropWhile Char.isDigit) := by
  induction chars with
  | nil =>
      rcases splice.copiesOrStops [] with ⟨_, _, same, _⟩ | ⟨_, ends⟩
      · cases same
      · exact ends.dropDigits
  | cons c rest tail =>
      rcases splice.copiesOrStops (c :: rest) with ⟨_, _, same, copied⟩ | ⟨here, ends⟩
      · cases same
        rw [copied, List.dropWhile_cons, List.dropWhile_cons]
        split
        · exact tail
        · exact copied.symm
      · rw [here.dropDigits, ends.dropDigits]

theorem fraction (chars : List Char) :
    Numeral.fraction (splice.change chars) =
      ((Numeral.fraction chars).1, splice.change (Numeral.fraction chars).2) := by
  rcases splice.copiesOrStops chars with ⟨c, rest, rfl, copied⟩ | ⟨here, ends⟩
  · rw [copied]
    by_cases point : c = '.'
    · subst point
      simp only [Numeral.fraction, splice.takeDigits, splice.dropDigits]
    · rw [fractionWithout (by simpa using point), fractionWithout (by simpa using point), copied]
  · rw [here.fraction, ends.fraction]

theorem sign (chars : List Char) :
    Numeral.sign (splice.change chars) =
      ((Numeral.sign chars).1, splice.change (Numeral.sign chars).2) := by
  rcases splice.copiesOrStops chars with ⟨c, rest, rfl, copied⟩ | ⟨here, ends⟩
  · rw [copied]
    by_cases plus : c = '+'
    · subst plus
      rfl
    · by_cases minus : c = '-'
      · subst minus
        rfl
      · rw [signWithout (by simpa using plus) (by simpa using minus),
          signWithout (by simpa using plus) (by simpa using minus), copied]
  · rw [here.sign, ends.sign]

/-- The rest after a numeral is changed in both outcomes. -/
def after {A : Type} : Except (List Char) (A × List Char) → Except (List Char) (A × List Char)
  | .ok (value, rest) => .ok (value, splice.change rest)
  | .error rest => .error (splice.change rest)

theorem power (chars : List Char) :
    Numeral.power (· == 'E') (splice.change chars) =
      splice.after (Numeral.power (· == 'E') chars) := by
  rcases splice.copiesOrStops chars with ⟨c, rest, rfl, copied⟩ | ⟨here, ends⟩
  · rw [copied]
    by_cases mark : c = 'E'
    · subst mark
      simp only [Numeral.power, splice.sign, splice.takeDigits, splice.dropDigits, beq_self_eq_true,
        if_true]
      split <;> rfl
    · simp only [Numeral.power, beq_iff_eq, mark, if_false, after, copied]
  · rw [here.power, ends.power]
    rfl

theorem read (chars : List Char) :
    Numeral.read (· == 'E') (splice.change chars) =
      splice.after (Numeral.read (· == 'E') chars) := by
  simp only [Numeral.read, splice.takeDigits, splice.dropDigits, splice.fraction, splice.power]
  cases Numeral.power (· == 'E') (Numeral.fraction (chars.dropWhile Char.isDigit)).2 <;> rfl

theorem copiesTaken {chars rest : List Char} (taken : Taken chars rest) :
    ∃ before, chars = before ++ rest ∧ splice.change chars = before ++ splice.change rest := by
  obtain ⟨before, rfl, parts⟩ := taken
  refine ⟨before, rfl, splice.copiesAll (fun c member => ?_) rest⟩
  rintro rfl
  exact absurd (parts _ member) (by decide)

/-- The rest after a piece is changed, and a refusal is the same. -/
def afterPiece {A : Type} :
    Except SyntaxError (A × List Char) → Except SyntaxError (A × List Char)
  | .ok (value, rest) => .ok (value, splice.change rest)
  | .error cause => .error cause

/-- The text of a faulty number ends before the rest, so it is the same too. -/
theorem number (chars : List Char) :
    Lexeme.number (splice.change chars) = splice.afterPiece (Lexeme.number chars) := by
  simp only [Lexeme.number, splice.read]
  cases result : Numeral.read (· == 'E') chars with
  | ok value => rfl
  | error rest =>
      have taken : Taken chars rest := by simpa only [result, restOf] using Taken.read chars
      obtain ⟨before, split, changed⟩ := splice.copiesTaken taken
      simp only [after, afterPiece]
      rw [changed, split]
      simp

/-- A word that starts otherwise is no prefix. -/
theorem prefixWithout {letter : Char} {chars : List Char} (without : letter ∉ chars.head?)
    (tail : List Char) : (letter :: tail).isPrefixOf chars = false := by
  cases chars with
  | nil => rfl
  | cons c others =>
      have other : letter ≠ c := fun same => without (by simp [same])
      simp [List.isPrefixOf_cons_cons, other]

theorem tailIsPrefixOf {tail : List Char} (plain : ∀ c ∈ tail, c ≠ 'A' ∧ boundary c = false)
    (chars : List Char) : tail.isPrefixOf (splice.change chars) = tail.isPrefixOf chars := by
  induction tail generalizing chars with
  | nil => simp
  | cons letter rest inductionHypothesis =>
      have letterPlain := plain letter (by simp)
      by_cases stop : chars = [] ∨ splice.place chars
      · have old : letter ∉ chars.head? := by
          rcases stop with rfl | place
          · simp
          · rw [splice.starts _ place]
            simpa using letterPlain.1.symm
        have new : letter ∉ (splice.change chars).head? := by
          intro member
          have bound := splice.stops chars stop letter member
          rw [letterPlain.2] at bound
          cases bound
        rw [prefixWithout old, prefixWithout new]
      · rw [not_or] at stop
        obtain ⟨c, others, rfl⟩ := List.exists_cons_of_ne_nil stop.1
        rw [splice.copies c others (by simpa using stop.2), List.isPrefixOf_cons_cons,
          List.isPrefixOf_cons_cons, inductionHypothesis fun c member => plain c (by simp [member])]

theorem wordTail : ∀ word ∈ words, ∀ c ∈ word.spelling.tail, c ≠ 'A' ∧ boundary c = false := by
  have checked : (words.all fun word => word.spelling.tail.all fun c =>
      c != 'A' && !boundary c) = true := by decide
  intro word member c inside
  have plain := List.all_eq_true.mp (List.all_eq_true.mp checked word member) c inside
  simpa using plain

/-- A word before which the text is copied is the same word. -/
theorem word (first : Char) (rest : List Char) :
    word? (first :: splice.change rest) = word? (first :: rest) := by
  have same : ∀ token ∈ words, token.spelling.isPrefixOf (first :: splice.change rest) =
      token.spelling.isPrefixOf (first :: rest) := by
    intro token member
    cases spelled : token.spelling with
    | nil => simp
    | cons letter tail =>
        have plain := wordTail token member
        rw [spelled, List.tail_cons] at plain
        rw [List.isPrefixOf_cons_cons, List.isPrefixOf_cons_cons, splice.tailIsPrefixOf plain]
  rw [word?, word?, ← List.head?_filter, ← List.head?_filter, List.filter_congr same]

theorem dropWord {first : Char} {rest : List Char} {token : Token}
    (found : word? (first :: rest) = some token) :
    (splice.change rest).drop (token.spelling.length - 1) =
      splice.change (rest.drop (token.spelling.length - 1)) := by
  have member : token ∈ words := List.mem_of_find?_eq_some found
  have begins := List.find?_some (p := fun token : Token =>
    token.spelling.isPrefixOf (first :: rest)) found
  obtain ⟨after, split⟩ := List.isPrefixOf_iff_prefix.mp begins
  have plain := wordTail token member
  cases spelled : token.spelling with
  | nil => simp
  | cons letter tail =>
      rw [spelled, List.tail_cons] at plain
      rw [spelled, List.cons_append, List.cons.injEq] at split
      rw [← split.2, splice.copiesAll fun c member => (plain c member).1]
      simp

/-- The first character of a place decides nothing before it. -/
theorem startsNumeral (first : Char) (rest : List Char) :
    Numeral.starts first (splice.change rest) = Numeral.starts first rest := by
  have digit : (splice.change rest).head?.any Char.isDigit = rest.head?.any Char.isDigit := by
    rcases splice.copiesOrStops rest with ⟨c, others, rfl, copied⟩ | ⟨here, ends⟩
    · rw [copied]
      rfl
    · rw [here.noDigit, ends.noDigit]
  simp only [Numeral.starts, digit]

/-- A piece before which the text is copied is the same piece. -/
theorem piece {first : Char} {rest : List Char} (position : Nat)
    (here : splice.place (first :: rest) = false) :
    Lexeme.piece position first (splice.change rest) =
      splice.afterPiece (Lexeme.piece position first rest) := by
  unfold Lexeme.piece
  split
  · rfl
  · split
    · rfl
    · rw [splice.startsNumeral, ← splice.copies first rest here, splice.number,
        splice.copies first rest here, splice.word]
      split
      · cases Lexeme.number (first :: rest) <;> rfl
      · split
        · next token found =>
          simp only [afterPiece, splice.dropWord found]
        · rfl

end Splice

end Calculator.Lexeme
