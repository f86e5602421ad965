/-
This file replaces the answer in a text by an expression, and finds the tokens of the new text.
-/

import Calculator.Proofs.Scanning.Composition

namespace Calculator

/-- Every occurrence of the answer becomes the expression between parentheses. -/
def Text.replaceAnswer (inside : List Char) : List Char → List Char
  | 'A' :: 'n' :: 's' :: rest => '(' :: (inside ++ ')' :: replaceAnswer inside rest)
  | c :: rest => c :: replaceAnswer inside rest
  | [] => []

/-- The answer among the tokens becomes the tokens of an expression between parentheses. -/
def Token.replaceAnswer (inside tokens : List Token) : List Token :=
  tokens.flatMap fun token =>
    if token = .answer then .opening :: (inside ++ [.closing]) else [token]

namespace Token

@[simp]
theorem replaceAnswerNil (inside : List Token) : replaceAnswer inside [] = [] := rfl

@[simp]
theorem replaceAnswerCons (inside rest : List Token) (token : Token) :
    replaceAnswer inside (token :: rest) =
      (if token = .answer then .opening :: (inside ++ [.closing]) else [token]) ++
        replaceAnswer inside rest := rfl

@[simp]
theorem replaceAnswerAppend (inside first second : List Token) :
    replaceAnswer inside (first ++ second) =
      replaceAnswer inside first ++ replaceAnswer inside second :=
  List.flatMap_append

end Token

namespace Lexeme

theorem replaceAnswerStarts {first : Char} {rest : List Char}
    (word : "Ans".toList.isPrefixOf (first :: rest)) :
    ∃ after, first = 'A' ∧ rest = 'n' :: 's' :: after := by
  obtain ⟨after, split⟩ := List.isPrefixOf_iff_prefix.mp word
  cases split
  exact ⟨after, rfl, rfl⟩

theorem replaceAnswerCopies (inside : List Char) {first : Char} {rest : List Char}
    (other : "Ans".toList.isPrefixOf (first :: rest) = false) :
    Text.replaceAnswer inside (first :: rest) = first :: Text.replaceAnswer inside rest := by
  rw [Text.replaceAnswer]
  rintro after rfl rfl
  cases other

/-- The replacement of the answer is a splice with the answers as its places. -/
def Splice.answer (inside : List Char) : Splice where
  change := Text.replaceAnswer inside
  place := fun chars => "Ans".toList.isPrefixOf chars
  copies := fun _ _ other => replaceAnswerCopies inside other
  stops := by
    rintro chars (rfl | place)
    · simp [Text.replaceAnswer]
    · obtain ⟨first, rest, rfl⟩ : ∃ first rest, chars = first :: rest := by
        cases chars with
        | nil => cases place
        | cons first rest => exact ⟨first, rest, rfl⟩
      obtain ⟨after, rfl, rfl⟩ := replaceAnswerStarts place
      intro c member
      cases member
      decide
  starts := by
    intro chars place
    cases chars with
    | nil => cases place
    | cons first rest =>
        obtain ⟨after, rfl, rfl⟩ := replaceAnswerStarts place
        rfl

/-- Only the answer itself is read as the answer. -/
theorem pieceAnswer {position : Nat} {first : Char} {rest after : List Char}
    (taken : piece position first rest = .ok (some .answer, after)) :
    "Ans".toList.isPrefixOf (first :: rest) := by
  unfold piece at taken
  split at taken
  · cases taken
  · split at taken
    · next token symbol =>
      cases taken
      unfold symbol? at symbol
      split at symbol <;> cases symbol
    · split at taken
      · split at taken
        · next token after read =>
          cases taken
          unfold number at read
          split at read <;> cases read
        · cases taken
      · split at taken
        · next token found =>
          cases taken
          exact List.find?_some (p := fun token : Token =>
            token.spelling.isPrefixOf (first :: rest)) found
        · cases taken

theorem pieceOpening (position : Nat) (rest : List Char) :
    piece position '(' rest = .ok (some .opening, rest) := rfl

theorem pieceClosing (position : Nat) (rest : List Char) :
    piece position ')' rest = .ok (some .closing, rest) := rfl

theorem pieceAnswerHere (position : Nat) (rest : List Char) :
    piece position 'A' ('n' :: 's' :: rest) = .ok (some .answer, rest) := by
  have found : word? ('A' :: 'n' :: 's' :: rest) = some .answer := by
    simp [word?, words, Token.spelling, NamedFunction.name]
  have blank : Text.isBlank 'A' = false := by decide
  have symbol : symbol? 'A' = none := by decide
  have number : Numeral.starts 'A' ('n' :: 's' :: rest) = false := by
    simp [Numeral.starts]
  simp [piece, blank, symbol, number, found, Token.spelling]

section

variable {inside : List Char} {inner : List Token} {position : Nat}

/-- An answer becomes the tokens of the expression between parentheses. -/
theorem scanReplacedAnswer (scannedInside : scanFrom position inside = .ok inner)
    {after : List Char} {others : List Token}
    (scannedAfter : ∀ other, scanFrom other after = .ok others) (other : Nat) :
    scanFrom other ('(' :: (inside ++ ')' :: after)) =
      .ok (.opening :: (inner ++ [.closing]) ++ others) := by
  have bound : ∀ c ∈ (')' :: after).head?, boundary c := by
    intro c member
    cases member
    decide
  rw [scanFromCons, pieceOpening]
  simp only [scanAppend _ _ bound, scanAnywhere scannedInside]
  rw [scanFromCons, pieceClosing]
  simp only [scannedAfter]
  simp

/-- The tokens of the new text are the new tokens. -/
theorem scanReplaced (scannedInside : scanFrom position inside = .ok inner) {start : Nat}
    {chars : List Char} {tokens : List Token} (scanned : scanFrom start chars = .ok tokens) :
    ∀ other, scanFrom other (Text.replaceAnswer inside chars) =
      .ok (Token.replaceAnswer inner tokens) := by
  refine scanInduction (motive := fun chars tokens => ∀ other,
    scanFrom other (Text.replaceAnswer inside chars) = .ok (Token.replaceAnswer inner tokens))
    (fun other => ?_) (fun {position first rest token after others} taken reached other => ?_)
    scanned
  · rw [Text.replaceAnswer, scanFromNil, Token.replaceAnswerNil]
  · by_cases place : "Ans".toList.isPrefixOf (first :: rest)
    · obtain ⟨_, rfl, rfl⟩ := replaceAnswerStarts place
      rw [pieceAnswerHere] at taken
      cases taken
      rw [Text.replaceAnswer, scanReplacedAnswer scannedInside reached]
      simp
    · rw [Bool.not_eq_true] at place
      have plain : token ≠ some .answer := by
        rintro rfl
        rw [pieceAnswer taken] at place
        cases place
      have same := (Splice.answer inside).piece other place
      rw [pieceAnywhere taken other] at same
      simp only [Splice.answer, Splice.afterPiece] at same
      rw [replaceAnswerCopies inside place, scanFromCons, same]
      simp only [reached]
      cases token with
      | none => rfl
      | some token =>
          have other : token ≠ .answer := fun same => plain (congrArg some same)
          simp [other]

end

end Lexeme

end Calculator
