/-
This file proves that the tokens of a text are those of its longest pieces from the left.
-/

import Calculator.Proofs.Decimal.Nearest
import Calculator.Proofs.Scanning.Composition
import Calculator.Proofs.Scanning.Piece

namespace Calculator.Lexeme

section Parts

variable {digits rest text fraction sign power : List Char}

theorem takeRun {p : Char → Bool} {run rest : List Char} (inside : ∀ c ∈ run, p c)
    (stop : ∀ c ∈ rest.head?, p c = false) : (run ++ rest).takeWhile p = run := by
  rw [List.takeWhile_append_of_pos inside]
  cases rest with
  | nil => simp
  | cons c others => simp [stop c rfl]

theorem dropRun {p : Char → Bool} {run rest : List Char} (inside : ∀ c ∈ run, p c)
    (stop : ∀ c ∈ rest.head?, p c = false) : (run ++ rest).dropWhile p = rest := by
  rw [List.dropWhile_append_of_pos inside]
  cases rest with
  | nil => rfl
  | cons c others => simp [stop c rfl]

/-- Two equal texts have the same run and the same end if the next characters end their runs. -/
theorem runUnique {p : Char → Bool} {run runOther rest restOther : List Char} {c d : Char}
    (inside : ∀ c ∈ run, p c) (insideOther : ∀ c ∈ runOther, p c) (stop : p c = false)
    (stopOther : p d = false) (same : run ++ c :: rest = runOther ++ d :: restOther) :
    run = runOther ∧ c = d ∧ rest = restOther := by
  have taken : (run ++ c :: rest).takeWhile p = run := takeRun inside (by simpa using stop)
  rw [same, takeRun insideOther (by simpa using stopOther)] at taken
  subst taken
  exact ⟨rfl, List.cons.inj (List.append_cancel_left same)⟩

theorem headCons {c : Char} {chars : List Char} (head : c ∈ chars.head?) :
    ∃ after, chars = c :: after := by
  cases chars with
  | nil => cases head
  | cons other after => exact ⟨after, by rw [Option.some.inj head]⟩

theorem runTaken (chars : List Char) :
    Run (chars.takeWhile Char.isDigit) (chars.dropWhile Char.isDigit) where
  digit c member := List.all_eq_true.mp List.all_takeWhile c member
  stops c member := by
    have head := List.head?_dropWhile_not Char.isDigit chars
    rw [Option.mem_def.mp member] at head
    simpa using head

theorem Run.take (run : Run digits rest) : (digits ++ rest).takeWhile Char.isDigit = digits :=
  takeRun run.digit run.stops

theorem Run.drop (run : Run digits rest) : (digits ++ rest).dropWhile Char.isDigit = rest :=
  dropRun run.digit run.stops

/-- The reader of a fraction takes the point and the digits after it. -/
theorem fractionIff {chars : List Char} : Numeral.fraction chars = (fraction, rest) ↔
    ∃ point, chars = point ++ rest ∧ Pointed point fraction rest := by
  constructor
  · intro read
    by_cases point : '.' ∈ chars.head?
    · obtain ⟨after, rfl⟩ := headCons point
      cases read
      refine ⟨_, ?_, .point (runTaken after)⟩
      rw [List.cons_append, List.takeWhile_append_dropWhile]
    · rw [fractionWithout point] at read
      cases read
      exact ⟨[], rfl, .without point⟩
  · rintro ⟨point, rfl, pointed⟩
    cases pointed with
    | without point => exact fractionWithout point
    | point run =>
        show (List.takeWhile _ (fraction ++ rest), List.dropWhile _ (fraction ++ rest)) = _
        rw [run.take, run.drop]

/-- The reader of a sign tells a minus from a plus. -/
theorem signIff {chars : List Char} {minus : Bool} : Numeral.sign chars = (minus, rest) ↔
    ∃ sign, chars = sign ++ rest ∧ Signed sign (if minus then -1 else 1) rest := by
  constructor
  · intro read
    by_cases plus : '+' ∈ chars.head?
    · obtain ⟨after, rfl⟩ := headCons plus
      cases read
      exact ⟨['+'], rfl, .plus⟩
    · by_cases minus : '-' ∈ chars.head?
      · obtain ⟨after, rfl⟩ := headCons minus
        cases read
        exact ⟨['-'], rfl, .minus⟩
      · rw [signWithout plus minus] at read
        cases read
        exact ⟨[], rfl, .without plus minus⟩
  · rintro ⟨sign, rfl, signed⟩
    cases minus <;> cases signed
    · next plus minus => exact signWithout plus minus
    · rfl
    · rfl

theorem signTaken (chars : List Char) : ∃ (minus : Bool) (sign rest : List Char),
    chars = sign ++ rest ∧ Signed sign (if minus then -1 else 1) rest := by
  obtain ⟨sign, taken⟩ := signIff.mp (Prod.eta (Numeral.sign chars)).symm
  exact ⟨_, sign, _, taken⟩

/-- After the mark and the sign of an exponent only the digits count. -/
theorem powerMark {sign chars : List Char} {minus : Bool}
    (signed : Signed sign (if minus then -1 else 1) chars) :
    Numeral.power (· == 'E') ('E' :: (sign ++ chars)) =
      if chars.takeWhile Char.isDigit = [] then .error chars
      else .ok ((if minus then -1 else 1) * Nat.ofDigitChars 10 (chars.takeWhile Char.isDigit) 0,
        chars.dropWhile Char.isDigit) := by
  have read : Numeral.sign (sign ++ chars) = (minus, chars) := signIff.mpr ⟨sign, rfl, signed⟩
  simp only [Numeral.power, beq_self_eq_true, if_true, read, List.isEmpty_iff]
  cases minus <;> simp

theorem signedUnit {unit : Int} (signed : Signed sign unit rest) :
    ∃ minus : Bool, unit = if minus then -1 else 1 := by
  cases signed with
  | without _ _ | plus => exact ⟨false, rfl⟩
  | minus => exact ⟨true, rfl⟩

/-- The reader of an exponent takes its mark, its sign and its digits. -/
theorem powerOk {chars : List Char} {exponent : Int} :
    Numeral.power (· == 'E') chars = .ok (exponent, rest) ↔
      ∃ power, chars = power ++ rest ∧ Scaled power exponent rest := by
  constructor
  · intro read
    by_cases mark : 'E' ∈ chars.head?
    · obtain ⟨after, rfl⟩ := headCons mark
      obtain ⟨minus, sign, tail, rfl, signed⟩ := signTaken after
      rw [powerMark signed] at read
      split at read
      · cases read
      · next present =>
        cases read
        refine ⟨'E' :: (sign ++ tail.takeWhile Char.isDigit), ?_, .mark ?_ (runTaken tail) present⟩
        · rw [List.cons_append, List.append_assoc, List.takeWhile_append_dropWhile]
        · rwa [List.takeWhile_append_dropWhile]
    · rw [powerWithout mark] at read
      cases read
      exact ⟨[], rfl, .without mark⟩
  · rintro ⟨power, rfl, scaled⟩
    cases scaled with
    | without mark => exact powerWithout mark
    | mark signed run present =>
        obtain ⟨minus, rfl⟩ := signedUnit signed
        rw [List.cons_append, List.append_assoc, powerMark signed, run.take, run.drop,
          if_neg present]

/-- The reader of an exponent stops where a digit is missing. -/
theorem powerError {chars : List Char} :
    Numeral.power (· == 'E') chars = .error rest ↔
      ∃ sign unit, chars = 'E' :: (sign ++ rest) ∧ Signed sign unit rest ∧
        ∀ c ∈ rest.head?, c.isDigit = false := by
  constructor
  · intro read
    by_cases mark : 'E' ∈ chars.head?
    · obtain ⟨after, rfl⟩ := headCons mark
      obtain ⟨minus, sign, tail, rfl, signed⟩ := signTaken after
      rw [powerMark signed] at read
      split at read
      · next missing =>
        cases read
        have run := runTaken rest
        have whole : rest.takeWhile Char.isDigit ++ rest.dropWhile Char.isDigit = rest :=
          List.takeWhile_append_dropWhile
        rw [missing, List.nil_append] at whole
        rw [whole] at run
        exact ⟨sign, _, rfl, signed, run.stops⟩
      · cases read
    · rw [powerWithout mark] at read
      cases read
  · rintro ⟨sign, unit, rfl, signed, stops⟩
    obtain ⟨minus, rfl⟩ := signedUnit signed
    have run : Run [] rest := ⟨by simp, stops⟩
    have taken := run.take
    rw [List.nil_append] at taken
    rw [powerMark signed, if_pos taken]

end Parts

section Numbers

variable {chars whole point fraction power text rest : List Char}

theorem headDigit (chars : List Char) :
    chars.head?.any Char.isDigit = true ↔ chars.takeWhile Char.isDigit ≠ [] := by
  cases chars with
  | nil => simp
  | cons c rest => by_cases digit : c.isDigit <;> simp [digit]

/-- A text starts with a number if a digit stands before or after its point. -/
theorem startsIff {first : Char} {rest whole point fraction after : List Char}
    (split : first :: rest = whole ++ (point ++ after)) (run : Run whole (point ++ after))
    (pointed : Pointed point fraction after) :
    Numeral.starts first rest ↔ whole ≠ [] ∨ fraction ≠ [] := by
  cases whole with
  | cons digit others =>
      obtain rfl : first = digit := (List.cons.inj split).1
      simp [Numeral.starts, run.digit first (by simp)]
  | nil =>
      rw [List.nil_append] at split
      have noDigit : first.isDigit = false := by
        apply run.stops
        rw [← split]
        rfl
      cases pointed with
      | without other =>
          rw [List.nil_append] at split
          have noPoint : first ≠ '.' := by
            rintro rfl
            exact other (by rw [← split]; rfl)
          simp [Numeral.starts, noDigit, noPoint]
      | point digits =>
          obtain ⟨rfl, tail⟩ := List.cons.inj split
          have taken : rest.takeWhile Char.isDigit = fraction := by
            rw [tail]
            exact digits.take
          have head := headDigit rest
          rw [taken] at head
          simpa [Numeral.starts, noDigit] using head

/-- Every text splits into the parts of a number and what follows them. -/
theorem mantissaTaken {first : Char} {rest : List Char} (started : Numeral.starts first rest) :
    ∃ whole point fraction after, first :: rest = whole ++ (point ++ after) ∧
      Mantissa whole point fraction after := by
  have run := runTaken (first :: rest)
  obtain ⟨point, split, pointed⟩ := fractionIff.mp
    (Prod.eta (Numeral.fraction ((first :: rest).dropWhile Char.isDigit))).symm
  have whole : first :: rest = (first :: rest).takeWhile Char.isDigit ++
      (point ++ (Numeral.fraction ((first :: rest).dropWhile Char.isDigit)).2) := by
    rw [← split, List.takeWhile_append_dropWhile]
  rw [split] at run
  exact ⟨_, point, _, _, whole, run, pointed, (startsIff whole run pointed).mp started⟩

theorem Mantissa.starts {first : Char} {rest after : List Char}
    (mantissa : Mantissa whole point fraction after)
    (split : first :: rest = whole ++ (point ++ after)) : Numeral.starts first rest :=
  (startsIff split mantissa.run mantissa.pointed).mpr mantissa.present

theorem readMantissa (mantissa : Mantissa whole point fraction rest) :
    Numeral.read (· == 'E') (whole ++ (point ++ rest)) =
      match Numeral.power (· == 'E') rest with
      | .ok (exponent, after) => .ok (Decimal.ofDigits whole fraction exponent, after)
      | .error after => .error after := by
  have fractional := fractionIff.mpr ⟨point, rfl, mantissa.pointed⟩
  cases powered : Numeral.power (· == 'E') rest <;>
    simp only [Numeral.read, mantissa.run.take, mantissa.run.drop, fractional, powered]

theorem readNumber {exponent : Int} (mantissa : Mantissa whole point fraction (power ++ rest))
    (scaled : Scaled power exponent rest) :
    Numeral.read (· == 'E') (whole ++ (point ++ power) ++ rest) =
      .ok (Decimal.ofDigits whole fraction exponent, rest) := by
  rw [List.append_assoc, List.append_assoc, readMantissa mantissa, powerOk.mpr ⟨_, rfl, scaled⟩]

/-- A text denotes at most one number. -/
theorem NumberText.unique {first second : Rat} (number : NumberText text first rest)
    (other : NumberText text second rest) : first = second := by
  have value {value : Rat} (number : NumberText text value rest) : ∃ decimal : Decimal,
      Numeral.read (· == 'E') (text ++ rest) = .ok (decimal, rest) ∧ decimal.value = value := by
    cases number with
    | exponent mantissa scaled => exact ⟨_, readNumber mantissa scaled, rfl⟩
  obtain ⟨decimal, read, rfl⟩ := value number
  obtain ⟨decimal, again, rfl⟩ := value other
  rw [read] at again
  cases again
  rfl

theorem NumberText.nonnegative {value : Rat} (number : NumberText text value rest) :
    0 ≤ value := by
  cases number with
  | exponent _ _ => positivity

theorem ofDigitsNearest (whole fraction : List Char) (exponent : Int) (x : Float) :
    Binary64.Closest (Nat.ofDigitChars 10 (whole ++ fraction) 0 * 10 ^ (exponent - fraction.length))
      x ↔ x = (Decimal.ofDigits whole fraction exponent).toFloat := by
  rw [Binary64.closestIff (by positivity), Decimal.toFloatNearest]
  rfl

/-- The token of a number is the closest one to what its text denotes. -/
theorem numberOk {first : Char} {rest after : List Char} {token : Token} :
    Numeral.starts first rest ∧ number (first :: rest) = .ok (token, after) ↔
      ∃ text value x, first :: rest = text ++ after ∧ NumberText text value after ∧
        Binary64.Closest value x ∧ token = .number x := by
  constructor
  · rintro ⟨started, read⟩
    obtain ⟨whole, point, fraction, tail, split, mantissa⟩ := mantissaTaken started
    rw [number, split, readMantissa mantissa] at read
    cases powered : Numeral.power (· == 'E') tail with
    | error _ =>
        rw [powered] at read
        cases read
    | ok result =>
        obtain ⟨exponent, others⟩ := result
        rw [powered] at read
        cases read
        obtain ⟨power, rfl, scaled⟩ := powerOk.mp powered
        refine ⟨_, _, _, ?_, .exponent mantissa scaled, (ofDigitsNearest _ _ _ _).mpr rfl, rfl⟩
        rw [split, List.append_assoc, List.append_assoc]
  · rintro ⟨text, value, x, split, ⟨mantissa, scaled⟩, closest, rfl⟩
    have read := readNumber mantissa scaled
    rw [List.append_assoc, List.append_assoc] at split
    refine ⟨mantissa.starts split, ?_⟩
    rw [List.append_assoc, List.append_assoc] at read
    rw [number, split, read, (ofDigitsNearest _ _ _ _).mp closest]

theorem takeBefore (first second : List Char) :
    (first ++ second).take ((first ++ second).length - second.length) = first := by
  simp

/-- The fault of a number is its text up to the missing digit. -/
theorem numberError {first : Char} {rest : List Char} {cause : SyntaxError} :
    Numeral.starts first rest ∧ number (first :: rest) = .error cause ↔
      ∃ text after, first :: rest = text ++ after ∧ Faulty text after ∧
        cause = .invalidNumber (String.ofList text) := by
  constructor
  · rintro ⟨started, read⟩
    obtain ⟨whole, point, fraction, tail, split, mantissa⟩ := mantissaTaken started
    rw [number, split, readMantissa mantissa] at read
    cases powered : Numeral.power (· == 'E') tail with
    | ok result =>
        rw [powered] at read
        cases read
    | error others =>
        rw [powered] at read
        cases read
        obtain ⟨sign, unit, rfl, signed, stops⟩ := powerError.mp powered
        have text : whole ++ (point ++ 'E' :: (sign ++ others)) =
            whole ++ (point ++ 'E' :: sign) ++ others := by simp
        rw [text] at split ⊢
        exact ⟨_, others, split, .mark mantissa signed stops, by rw [takeBefore]⟩
  · rintro ⟨text, after, split, ⟨mantissa, signed, stops⟩, rfl⟩
    have whole := split
    rw [List.append_assoc, List.append_assoc, List.cons_append] at split
    refine ⟨mantissa.starts split, ?_⟩
    rw [number, split, readMantissa mantissa, powerError.mpr ⟨_, _, rfl, signed, stops⟩]
    simp only [← split, whole, takeBefore]

end Numbers

section Pieces

variable {position : Nat} {first : Char} {rest after : List Char}

theorem symbolIff {token : Token} : symbol? first = some token ↔ (first, token) ∈ symbols := by
  constructor
  · intro found
    unfold symbol? at found
    split at found <;> simp_all [symbols]
  · intro member
    have table : ∀ entry ∈ symbols, symbol? entry.1 = some entry.2 := by decide
    exact table _ member

theorem symbolPlain {token : Token} (symbol : symbol? first = some token) :
    Text.isBlank first = false := by
  have table : ∀ entry ∈ symbols, Text.isBlank entry.1 = false := by decide
  exact table (first, token) (symbolIff.mp symbol)

/-- A digit is neither a blank nor a symbol. -/
theorem digitPlain {c : Char} (digit : c.isDigit) : Text.isBlank c = false ∧ symbol? c = none := by
  constructor
  · rw [Bool.eq_false_iff]
    intro blank
    have bound := notInNumeral (blankBoundary blank)
    rw [inNumeralDigit digit] at bound
    cases bound
  · unfold symbol?
    split <;> first | rfl | exact absurd digit (by decide)

/-- A number starts neither with a blank nor with a symbol. -/
theorem startsPlain (started : Numeral.starts first rest) :
    Text.isBlank first = false ∧ symbol? first = none := by
  simp only [Numeral.starts, Bool.or_eq_true, Bool.and_eq_true, beq_iff_eq] at started
  rcases started with digit | ⟨rfl, _⟩
  · exact digitPlain digit
  · decide

/-- No word is the beginning of another word. -/
theorem wordIff {chars : List Char} {token : Token} :
    word? chars = some token ↔ token ∈ words ∧ token.spelling <+: chars := by
  have apart : ∀ first ∈ words, ∀ second ∈ words,
      first.spelling.isPrefixOf second.spelling → first = second := by decide
  constructor
  · intro found
    exact ⟨List.mem_of_find?_eq_some found, List.isPrefixOf_iff_prefix.mp
      (List.find?_some (p := fun token : Token => token.spelling.isPrefixOf chars) found)⟩
  · rintro ⟨member, begins⟩
    cases found : word? chars with
    | none =>
        have other := List.find?_eq_none.mp found token member
        exact absurd (List.isPrefixOf_iff_prefix.mpr begins) other
    | some other =>
        have memberOther := List.mem_of_find?_eq_some found
        have beginsOther := List.isPrefixOf_iff_prefix.mp
          (List.find?_some (p := fun token : Token => token.spelling.isPrefixOf chars) found)
        rcases List.prefix_or_prefix_of_prefix begins beginsOther with short | long
        · rw [apart token member other memberOther (List.isPrefixOf_iff_prefix.mpr short)]
        · rw [apart other memberOther token member (List.isPrefixOf_iff_prefix.mpr long)]

theorem wordsVocabulary {token : Token} (member : token ∈ words) :
    ∃ letters, (letters, token) ∈ vocabulary ∧ letters.toList = token.spelling := by
  have table : ∀ token ∈ words, ∃ entry ∈ vocabulary,
      entry.2 = token ∧ entry.1.toList = token.spelling := by decide
  obtain ⟨⟨letters, _⟩, entry, rfl, spelled⟩ := table token member
  exact ⟨letters, entry, spelled⟩

theorem vocabularyWords {letters : String} {token : Token} (entry : (letters, token) ∈ vocabulary) :
    token ∈ words ∧ letters.toList = token.spelling := by
  have table : ∀ entry ∈ vocabulary, entry.2 ∈ words ∧ entry.1.toList = entry.2.spelling := by
    decide
  exact table (letters, token) entry

/-- The text after a word starts after its letters. -/
theorem dropWord {token : Token} (member : token ∈ words)
    (split : token.spelling ++ after = first :: rest) :
    rest.drop (token.spelling.length - 1) = after := by
  have present : ∀ token ∈ words, token.spelling ≠ [] := by decide
  obtain ⟨letter, tail, spelled⟩ := List.exists_cons_of_ne_nil (present token member)
  rw [spelled] at split ⊢
  rw [← (List.cons.inj split).2]
  simp

/-- A word starts like no other piece. -/
theorem wordPlain {token : Token} (member : token ∈ words)
    (begins : token.spelling <+: first :: rest) :
    Text.isBlank first = false ∧ symbol? first = none ∧ Numeral.starts first rest = false := by
  have checked : (words.all fun token =>
      !token.spelling.isEmpty && token.spelling.head?.all fun c =>
        !Text.isBlank c && (symbol? c).isNone && !c.isDigit && c != '.') = true := by decide
  have plain := List.all_eq_true.mp checked token member
  obtain ⟨after, split⟩ := begins
  cases spelled : token.spelling with
  | nil =>
      rw [spelled] at plain
      cases plain
  | cons letter tail =>
      rw [spelled] at plain split
      obtain rfl : letter = first := (List.cons.inj split).1
      simp_all [Numeral.starts]

/-- A piece is found exactly where it stands. -/
theorem pieceOk {token : Option Token} : piece position first rest = .ok (token, after) ↔
    ∃ text, first :: rest = text ++ after ∧ Piece text token after := by
  constructor
  · intro taken
    unfold piece at taken
    split at taken
    · next blank =>
      cases taken
      exact ⟨[first], rfl, .blank blank⟩
    · split at taken
      · next symbol =>
        cases taken
        exact ⟨[first], rfl, .symbol (symbolIff.mp symbol)⟩
      · split at taken
        · next started =>
          split at taken
          · next read =>
            cases taken
            obtain ⟨text, value, x, split, number, closest, rfl⟩ := numberOk.mp ⟨started, read⟩
            exact ⟨text, split, .number number closest⟩
          · cases taken
        · split at taken
          · next found =>
            cases taken
            obtain ⟨member, others, split⟩ := wordIff.mp found
            obtain ⟨letters, entry, spelled⟩ := wordsVocabulary member
            refine ⟨letters.toList, ?_, .word entry⟩
            rw [dropWord member split, spelled, split]
          · cases taken
  · rintro ⟨text, split, taken⟩
    cases taken with
    | blank blank =>
        obtain ⟨rfl, rfl⟩ := List.cons.inj split
        rw [piece, if_pos blank]
    | symbol entry =>
        obtain ⟨rfl, rfl⟩ := List.cons.inj split
        have symbol := symbolIff.mpr entry
        simp only [piece, symbolPlain symbol, symbol, Bool.false_eq_true, if_false]
    | word entry =>
        obtain ⟨member, spelled⟩ := vocabularyWords entry
        rw [spelled] at split
        have begins : _ <+: first :: rest := ⟨_, split.symm⟩
        obtain ⟨blank, symbol, started⟩ := wordPlain member begins
        simp only [piece, blank, symbol, started, wordIff.mpr ⟨member, begins⟩,
          dropWord member split.symm, Bool.false_eq_true, if_false]
    | number number closest =>
        obtain ⟨started, read⟩ := numberOk.mpr ⟨_, _, _, split, number, closest, rfl⟩
        obtain ⟨blank, symbol⟩ := startsPlain started
        simp only [piece, blank, symbol, started, read, Bool.false_eq_true, if_false, if_true]

/-- Only a faulty number and a character that starts nothing are refused. -/
theorem pieceRefused {cause : SyntaxError} (taken : piece position first rest = .error cause) :
    (cause = .unexpectedCharacter first position ∧ Numeral.starts first rest = false) ∨
      ∃ text after, first :: rest = text ++ after ∧ Faulty text after ∧
        cause = .invalidNumber (String.ofList text) := by
  unfold piece at taken
  split at taken
  · cases taken
  · split at taken
    · cases taken
    · split at taken
      · next started =>
        split at taken
        · cases taken
        · next read =>
          cases taken
          exact .inr (numberError.mp ⟨started, read⟩)
      · next apart =>
        split at taken
        · cases taken
        · cases taken
          exact .inl ⟨rfl, Bool.eq_false_iff.mpr apart⟩

theorem Faulty.refused {text : List Char} (faulty : Faulty text after)
    (split : first :: rest = text ++ after) :
    piece position first rest = .error (.invalidNumber (String.ofList text)) := by
  obtain ⟨started, read⟩ := numberError.mpr ⟨text, after, split, faulty, rfl⟩
  obtain ⟨blank, symbol⟩ := startsPlain started
  simp only [piece, blank, symbol, started, read, Bool.false_eq_true, if_false, if_true]

/-- A piece is refused exactly where the cut of a text stops. -/
theorem pieceError {cause : SyntaxError} :
    piece position first rest = .error cause ↔ Stops position (first :: rest) cause := by
  constructor
  · intro taken
    obtain ⟨rfl, apart⟩ | ⟨text, after, split, faulty, rfl⟩ := pieceRefused taken
    · refine .character (fun text token after stands split => ?_) fun text after faulty split => ?_
      · rw [pieceOk.mpr ⟨text, split.symm, stands⟩] at taken
        cases taken
      · obtain ⟨started, _⟩ := numberError.mpr ⟨text, after, split.symm, faulty, rfl⟩
        rw [apart] at started
        cases started
    · rw [split]
      exact .number faulty
  · intro stops
    generalize whole : first :: rest = chars at stops
    cases stops with
    | number faulty => exact faulty.refused whole
    | character noPiece noNumber =>
        obtain ⟨rfl, rfl⟩ := List.cons.inj whole
        cases taken : piece position first rest with
        | ok result =>
            obtain ⟨text, split, stands⟩ := pieceOk.mp taken
            exact absurd split.symm (noPiece _ _ _ stands)
        | error other =>
            obtain ⟨rfl, _⟩ | ⟨text, after, split, faulty, _⟩ := pieceRefused taken
            · rfl
            · exact absurd split.symm (noNumber _ _ faulty)

end Pieces

end Calculator.Lexeme
