/-
This file proves that a scan is the cut of a text into its pieces up to where they stop.
-/

import Calculator.Proofs.Scanning.MaximalMunch

namespace Calculator.Lexeme

section Shortening

variable {others rest : List Char}

/-- The character after a part of a text stays the same if the end of the text is left out. -/
theorem headShorten {p : Char → Prop} (after : ∀ c ∈ (others ++ rest).head?, p c) :
    ∀ c ∈ others.head?, p c :=
  fun c member => after c (List.mem_head?_append_of_mem_head? member)

theorem apartShorten {mark : Char} (apart : mark ∉ (others ++ rest).head?) :
    mark ∉ others.head? :=
  fun member => apart (List.mem_head?_append_of_mem_head? member)

theorem Run.shorten {digits : List Char} (run : Run digits (others ++ rest)) :
    Run digits others :=
  ⟨run.digit, headShorten run.stops⟩

theorem Pointed.shorten {point fraction : List Char}
    (pointed : Pointed point fraction (others ++ rest)) : Pointed point fraction others := by
  cases pointed with
  | without apart => exact .without (apartShorten apart)
  | point run => exact .point run.shorten

theorem Signed.shorten {sign : List Char} {unit : Int}
    (signed : Signed sign unit (others ++ rest)) : Signed sign unit others := by
  cases signed with
  | without plus minus => exact .without (apartShorten plus) (apartShorten minus)
  | plus => exact .plus
  | minus => exact .minus

theorem Scaled.shorten {power : List Char} {exponent : Int}
    (scaled : Scaled power exponent (others ++ rest)) : Scaled power exponent others := by
  cases scaled with
  | without apart => exact .without (apartShorten apart)
  | mark signed run present =>
      rw [← List.append_assoc] at signed
      exact .mark signed.shorten run.shorten present

theorem Mantissa.shorten {whole point fraction : List Char}
    (mantissa : Mantissa whole point fraction (others ++ rest)) :
    Mantissa whole point fraction others := by
  obtain ⟨run, pointed, present⟩ := mantissa
  rw [← List.append_assoc] at run
  exact ⟨run.shorten, pointed.shorten, present⟩

theorem NumberText.shorten {text : List Char} {value : Rat}
    (number : NumberText text value (others ++ rest)) : NumberText text value others := by
  cases number with
  | exponent mantissa scaled =>
      rw [← List.append_assoc] at mantissa
      exact .exponent mantissa.shorten scaled.shorten

/-- A piece does not need the end of the text after it. -/
theorem Piece.shorten {text : List Char} {token : Option Token}
    (piece : Piece text token (others ++ rest)) : Piece text token others := by
  cases piece with
  | blank blank => exact .blank blank
  | symbol entry => exact .symbol entry
  | word entry => exact .word entry
  | number number closest => exact .number number.shorten closest

/-- The pieces of a text are all the pieces of their own text. -/
theorem Cut.shorten {chars : List Char} {pieces : List (List Char × Option Token)}
    (cut : Cut chars pieces rest) : Cut (Lexeme.joined pieces) pieces [] := by
  induction cut with
  | stop rest => exact .stop []
  | piece stands cut inductionHypothesis =>
      rw [cut.joined] at stands
      exact .piece stands.shorten inductionHypothesis

end Shortening

section Scan

variable {chars rest text : List Char} {pieces : List (List Char × Option Token)}

theorem NumberText.present {value : Rat} (number : NumberText text value rest) : text ≠ [] := by
  cases number with
  | exponent mantissa scaled =>
      rcases mantissa.present with whole | fraction
      · simp [whole]
      · cases mantissa.pointed with
        | without _ => exact absurd rfl fraction
        | point _ => simp

theorem Piece.present {token : Option Token} (piece : Piece text token rest) : text ≠ [] := by
  cases piece with
  | blank _ | symbol _ => simp
  | @word letters token _ entry =>
      have table : ∀ entry ∈ vocabulary, entry.1.toList ≠ [] := by decide
      exact table (letters, token) entry
  | number number _ => exact number.present

theorem Stops.present {position : Nat} {cause : SyntaxError} (stops : Stops position rest cause) :
    rest ≠ [] := by
  cases stops with
  | character _ _ => simp
  | number faulty =>
      cases faulty
      simp

theorem Stops.scan {position : Nat} {cause : SyntaxError} (stops : Stops position rest cause) :
    scanFrom position rest = .error cause := by
  obtain ⟨first, others, rfl⟩ := List.exists_cons_of_ne_nil stops.present
  rw [scanFromCons, pieceError.mpr stops]

/-- The scan goes over the pieces of a cut, and then over the rest. -/
theorem Cut.scan (cut : Cut chars pieces rest) (position : Nat) :
    scanFrom position chars =
      match scanFrom (position + (Lexeme.joined pieces).length) rest with
      | .error cause => .error cause
      | .ok tokens => .ok (tokensOf pieces ++ tokens) := by
  induction cut generalizing position with
  | stop rest =>
      show scanFrom position rest = match scanFrom position rest with
        | .error cause => .error cause
        | .ok tokens => .ok ([] ++ tokens)
      cases scanFrom position rest <;> rfl
  | @piece text others rest token pieces stands cut inductionHypothesis =>
      obtain ⟨first, tail, rfl⟩ := List.exists_cons_of_ne_nil stands.present
      have taken : Lexeme.piece position first (tail ++ others) = .ok (token, others) :=
        pieceOk.mpr ⟨first :: tail, rfl, stands⟩
      have moved : position + ((tail ++ others).length + 1 - others.length) +
          (Lexeme.joined pieces).length =
          position + (Lexeme.joined ((first :: tail, token) :: pieces)).length := by
        simp only [Lexeme.joined, List.flatMap_cons, List.length_append, List.length_cons]
        omega
      have tokens : tokensOf ((first :: tail, token) :: pieces) =
          token.toList ++ tokensOf pieces := by
        cases token <;> rfl
      rw [List.cons_append, scanFromCons, taken]
      simp only [inductionHypothesis, moved, tokens, List.append_assoc]
      cases scanFrom (position + (Lexeme.joined ((first :: tail, token) :: pieces)).length) rest <;>
        rfl

/-- Every text has a cut to its end or to where it stops. -/
theorem cutTaken (position : Nat) (chars : List Char) : ∃ pieces rest, Cut chars pieces rest ∧
    (rest = [] ∨ ∃ cause, Stops (position + (joined pieces).length) rest cause) := by
  induction size : chars.length using Nat.strong_induction_on generalizing position chars with
  | _ size inductionHypothesis =>
    cases chars with
    | nil => exact ⟨[], [], .stop [], .inl rfl⟩
    | cons first others =>
        cases taken : piece position first others with
        | error cause => exact ⟨[], _, .stop _, .inr ⟨cause, pieceError.mp taken⟩⟩
        | ok result =>
            obtain ⟨token, after⟩ := result
            obtain ⟨text, split, stands⟩ := pieceOk.mp taken
            have shorter := pieceLength taken
            rw [List.length_cons] at size
            obtain ⟨pieces, rest, cut, ends⟩ := inductionHypothesis after.length (by omega)
              (position + text.length) after rfl
            refine ⟨(text, token) :: pieces, rest, ?_, ?_⟩
            · rw [split]
              exact .piece stands cut
            · rw [Nat.add_assoc] at ends
              simpa [joined] using ends

/-- A scan ends well where a cut goes to the end of the text. -/
theorem scanOk {position : Nat} {tokens : List Token} :
    scanFrom position chars = .ok tokens ↔
      ∃ pieces, Cut chars pieces [] ∧ tokensOf pieces = tokens := by
  constructor
  · intro scanned
    obtain ⟨pieces, rest, cut, ends⟩ := cutTaken position chars
    rw [cut.scan] at scanned
    obtain rfl | ⟨cause, stops⟩ := ends
    · rw [scanFromNil] at scanned
      cases scanned
      exact ⟨pieces, cut, (List.append_nil _).symm⟩
    · rw [stops.scan] at scanned
      cases scanned
  · rintro ⟨pieces, cut, rfl⟩
    rw [cut.scan, scanFromNil]
    simp only [List.append_nil]

/-- A scan fails where a cut stops. -/
theorem scanError {position : Nat} {cause : SyntaxError} :
    scanFrom position chars = .error cause ↔
      ∃ pieces rest, Cut chars pieces rest ∧
        Stops (position + (joined pieces).length) rest cause := by
  constructor
  · intro scanned
    obtain ⟨pieces, rest, cut, ends⟩ := cutTaken position chars
    rw [cut.scan] at scanned
    obtain rfl | ⟨other, stops⟩ := ends
    · rw [scanFromNil] at scanned
      cases scanned
    · rw [stops.scan] at scanned
      cases scanned
      exact ⟨pieces, rest, cut, stops⟩
  · rintro ⟨pieces, rest, cut, stops⟩
    rw [cut.scan, stops.scan]

theorem Cut.number {x : Float} (cut : Cut chars pieces rest)
    (member : .number x ∈ tokensOf pieces) : ∃ value, Binary64.Closest value x := by
  induction cut with
  | stop rest => cases member
  | @piece text others rest token pieces stands cut inductionHypothesis =>
      obtain ⟨⟨piece, some⟩, inside, rfl⟩ := List.mem_filterMap.mp member
      rcases List.mem_cons.mp inside with same | inside
      · cases same
        cases stands with
        | symbol entry =>
            have table : ∀ entry ∈ symbols, entry.2 ≠ .number x := by simp [symbols]
            exact absurd rfl (table (_, _) entry)
        | word entry =>
            have table : ∀ entry ∈ vocabulary, entry.2 ≠ .number x := by simp [vocabulary]
            exact absurd rfl (table (_, _) entry)
        | number _ closest => exact ⟨_, closest⟩
      · exact inductionHypothesis (List.mem_filterMap.mpr ⟨_, inside, rfl⟩)

/-- A scanned number has no sign. -/
theorem scannedPlus {position : Nat} {tokens : List Token} {x : Float}
    (scanned : scanFrom position chars = .ok tokens) (member : .number x ∈ tokens) :
    x.isNaN = false ∧ Binary64.negative x = false := by
  obtain ⟨pieces, cut, rfl⟩ := scanOk.mp scanned
  obtain ⟨value, closest⟩ := cut.number member
  exact ⟨closest.notNaN, closest.plus⟩

/-- The pieces before a stop are a text of their own. -/
theorem Cut.scanJoined (cut : Cut chars pieces rest) :
    Token.scan (String.ofList (Lexeme.joined pieces)) = .ok (tokensOf pieces) := by
  rw [Token.scan, String.toList_ofList]
  exact scanOk.mpr ⟨pieces, cut.shorten, rfl⟩

/-- The unexpected character stands where the cut stops. -/
theorem Stops.unexpected {position other : Nat} {c : Char}
    (stops : Stops position rest (.unexpectedCharacter c other)) :
    position = other ∧ rest.head? = some c := by
  cases stops
  exact ⟨rfl, rfl⟩

/-- The scan of a text is its cut from the left into the longest pieces. It gives the tokens of the
pieces if they reach the end of the text, and its error says where and why they stop. -/
theorem scanCuts (text : String) :
    (∀ tokens, Token.scan text = .ok tokens ↔ ∃ pieces, Cut text.toList pieces [] ∧
      joined pieces = text.toList ∧ tokensOf pieces = tokens ∧
      ∀ x, .number x ∈ tokens → x.isNaN = false ∧ Binary64.negative x = false) ∧
    (∀ cause, Token.scan text = .error cause ↔ ∃ pieces rest, Cut text.toList pieces rest ∧
      joined pieces ++ rest = text.toList ∧
      Token.scan (String.ofList (joined pieces)) = .ok (tokensOf pieces) ∧
      Stops (joined pieces).length rest cause) ∧
    ∀ c position, Token.scan text = .error (.unexpectedCharacter c position) →
      text.toList[position]? = some c := by
  refine ⟨fun tokens => ?_, fun cause => ?_, fun c position refused => ?_⟩
  · constructor
    · intro scanned
      obtain ⟨pieces, cut, ends⟩ := scanOk.mp scanned
      have whole := cut.joined
      rw [List.append_nil] at whole
      exact ⟨pieces, cut, whole.symm, ends, fun x => scannedPlus scanned⟩
    · rintro ⟨pieces, cut, _, ends, _⟩
      exact scanOk.mpr ⟨pieces, cut, ends⟩
  · rw [Token.scan, scanError]
    simp only [Nat.zero_add]
    constructor
    · rintro ⟨pieces, rest, cut, stops⟩
      exact ⟨pieces, rest, cut, cut.joined.symm, cut.scanJoined, stops⟩
    · rintro ⟨pieces, rest, cut, _, _, stops⟩
      exact ⟨pieces, rest, cut, stops⟩
  · obtain ⟨pieces, rest, cut, stops⟩ := scanError.mp refused
    rw [Nat.zero_add] at stops
    obtain ⟨rfl, head⟩ := stops.unexpected
    rw [cut.joined, List.getElem?_append_right (Nat.le_refl _), Nat.sub_self,
      ← List.head?_eq_getElem?, head]

end Scan

/-- Some pieces with these tokens stand before the rest of a text. -/
def Gives (chars : List Char) (tokens : List Token) (rest : List Char) : Prop :=
  ∃ pieces, Cut chars pieces rest ∧ tokensOf pieces = tokens

section Gives

variable {chars middle rest : List Char} {tokens others : List Token}

theorem Cut.append {pieces more : List (List Char × Option Token)} (cut : Cut chars pieces middle)
    (next : Cut middle more rest) : Cut chars (pieces ++ more) rest := by
  induction cut with
  | stop middle => exact next
  | piece stands _ inductionHypothesis => exact .piece stands (inductionHypothesis next)

theorem Gives.append (first : Gives chars tokens middle) (second : Gives middle others rest) :
    Gives chars (tokens ++ others) rest := by
  obtain ⟨pieces, cut, rfl⟩ := first
  obtain ⟨more, next, rfl⟩ := second
  exact ⟨pieces ++ more, cut.append next, List.filterMap_append⟩

theorem givesPiece {text : List Char} {token : Option Token} (piece : Piece text token rest) :
    Gives (text ++ rest) token.toList rest := by
  refine ⟨[(text, token)], .piece piece (.stop rest), ?_⟩
  cases token <;> rfl

theorem givesSymbol {c : Char} {token : Token} (symbol : symbol? c = some token)
    (rest : List Char) : Gives (c :: rest) [token] rest := by
  have piece : Piece [c] (some token) rest := .symbol (symbolIff.mp symbol)
  exact givesPiece piece

theorem givesSpace (rest : List Char) : Gives (' ' :: rest) [] rest := by
  have piece : Piece [' '] none rest := .blank (by decide)
  exact givesPiece piece

theorem givesWord {token : Token} (word : token ∈ words) (rest : List Char) :
    Gives (token.spelling ++ rest) [token] rest := by
  obtain ⟨letters, entry, spelled⟩ := wordsVocabulary word
  rw [← spelled]
  exact givesPiece (.word entry)

theorem Gives.scan (given : Gives chars tokens []) (position : Nat) :
    scanFrom position chars = .ok tokens :=
  scanOk.mpr given

end Gives

end Calculator.Lexeme
