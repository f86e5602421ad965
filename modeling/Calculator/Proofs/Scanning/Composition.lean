/-
This file proves how the tokens of a text follow from the tokens of its parts.
-/

import Calculator.Proofs.Scanning.Splice
import Calculator.Proofs.Text.Trim

namespace Calculator

/-- The characters before a text move the position of an unexpected character. -/
def SyntaxError.moved (offset : Nat) : SyntaxError → SyntaxError
  | .unexpectedCharacter c position => .unexpectedCharacter c (position + offset)
  | cause => cause

namespace Lexeme

@[simp]
theorem scanFromNil (position : Nat) : scanFrom position [] = .ok [] := by
  rw [scanFrom.eq_def]

theorem scanFromCons (position : Nat) (first : Char) (rest : List Char) :
    scanFrom position (first :: rest) =
      match piece position first rest with
      | .error cause => .error cause
      | .ok (token, after) =>
        match scanFrom (position + (rest.length + 1 - after.length)) after with
        | .error cause => .error cause
        | .ok tokens => .ok (token.toList ++ tokens) := by
  rw [scanFrom.eq_def]
  simp only
  split
  · next taken => rw [taken]
  · next token after taken =>
    cases reached : scanFrom (position + (rest.length + 1 - after.length)) after <;>
      simp only [taken, reached]

/-- The pieces of a scanned text are found one by one. -/
theorem scanFromOk {position : Nat} {first : Char} {rest : List Char} {tokens : List Token}
    (scanned : scanFrom position (first :: rest) = .ok tokens) :
    ∃ token after others, piece position first rest = .ok (token, after) ∧
      scanFrom (position + (rest.length + 1 - after.length)) after = .ok others ∧
      tokens = token.toList ++ others := by
  rw [scanFromCons] at scanned
  split at scanned
  · cases scanned
  · next token after taken =>
    split at scanned
    · cases scanned
    · next others reached =>
      cases scanned
      exact ⟨token, after, others, taken, reached, rfl⟩

/-- A position is only part of the error of an unexpected character. -/
theorem pieceMoved (offset position : Nat) (first : Char) (rest : List Char) :
    piece (position + offset) first rest =
      (piece position first rest).mapError (SyntaxError.moved offset) := by
  unfold piece
  split
  · rfl
  · split
    · rfl
    · split
      · cases taken : number (first :: rest) with
        | ok result => rfl
        | error cause =>
            unfold number at taken
            split at taken
            · cases taken
            · cases taken
              rfl
      · split <;> rfl

theorem pieceAnywhere {position : Nat} {first : Char} {rest after : List Char}
    {token : Option Token} (taken : piece position first rest = .ok (token, after))
    (other : Nat) : piece other first rest = .ok (token, after) := by
  rw [← Nat.zero_add position, pieceMoved] at taken
  rw [← Nat.zero_add other, pieceMoved]
  cases start : piece 0 first rest with
  | ok result =>
      rw [start] at taken
      exact taken
  | error cause =>
      rw [start] at taken
      cases taken

/-- A property of the scanned texts holds of nothing and goes from the text after a piece to the
text with the piece. -/
theorem scanInduction {motive : List Char → List Token → Prop} (nothing : motive [] [])
    (piecewise : ∀ {position first rest token after others},
      piece position first rest = .ok (token, after) → motive after others →
      motive (first :: rest) (token.toList ++ others))
    {position : Nat} {chars : List Char} {tokens : List Token}
    (scanned : scanFrom position chars = .ok tokens) : motive chars tokens := by
  induction position, chars using scanFrom.induct generalizing tokens with
  | case1 position =>
      rw [scanFromNil] at scanned
      cases scanned
      exact nothing
  | case2 position first rest cause refused =>
      obtain ⟨_, _, _, taken, _⟩ := scanFromOk scanned
      rw [refused] at taken
      cases taken
  | case3 position first rest token after taken cause refused inductionHypothesis =>
      obtain ⟨_, _, _, again, reached, _⟩ := scanFromOk scanned
      rw [taken] at again
      cases again
      rw [refused] at reached
      cases reached
  | case4 position first rest token after taken others reached inductionHypothesis =>
      obtain ⟨_, _, _, again, reachedAgain, rfl⟩ := scanFromOk scanned
      rw [taken] at again
      cases again
      exact piecewise taken (inductionHypothesis reachedAgain)

theorem scanMoved (offset position : Nat) (chars : List Char) :
    scanFrom (position + offset) chars =
      (scanFrom position chars).mapError (SyntaxError.moved offset) := by
  have later (position size : Nat) : position + offset + size = position + size + offset :=
    Nat.add_right_comm position offset size
  induction position, chars using scanFrom.induct with
  | case1 position =>
      rw [scanFromNil, scanFromNil]
      rfl
  | case2 position first rest cause refused =>
      rw [scanFromCons, scanFromCons, pieceMoved, refused]
      rfl
  | case3 position first rest token after taken cause refused inductionHypothesis =>
      rw [scanFromCons, scanFromCons, pieceMoved, taken]
      simp only [Except.mapError, later, inductionHypothesis, refused]
  | case4 position first rest token after taken others reached inductionHypothesis =>
      rw [scanFromCons, scanFromCons, pieceMoved, taken]
      simp only [Except.mapError, later, inductionHypothesis, reached]

theorem scanAnywhere {position : Nat} {chars : List Char} {tokens : List Token}
    (scanned : scanFrom position chars = .ok tokens) (other : Nat) :
    scanFrom other chars = .ok tokens := by
  rw [← Nat.zero_add position, scanMoved] at scanned
  rw [← Nat.zero_add other, scanMoved]
  cases start : scanFrom 0 chars with
  | ok result =>
      rw [start] at scanned
      exact scanned
  | error cause =>
      rw [start] at scanned
      cases scanned

/-- A text that goes on with a boundary is a splice of nothing at its end. -/
def Splice.append (tail : List Char) (bound : ∀ c ∈ tail.head?, boundary c) : Splice where
  change := (· ++ tail)
  place := fun _ => false
  copies := fun _ _ _ => rfl
  stops := by
    rintro chars (rfl | place)
    · exact bound
    · cases place
  starts := by
    intro chars place
    cases place

/-- The pieces before a boundary do not depend on the pieces after it. -/
theorem scanAppend (position : Nat) (chars : List Char) {tail : List Char}
    (bound : ∀ c ∈ tail.head?, boundary c) :
    scanFrom position (chars ++ tail) =
      match scanFrom position chars with
      | .error cause => .error cause
      | .ok tokens =>
        match scanFrom (position + chars.length) tail with
        | .error cause => .error cause
        | .ok others => .ok (tokens ++ others) := by
  have same (position : Nat) (first : Char) (rest : List Char) :=
    @Splice.piece (Splice.append tail bound) first rest position rfl
  simp only [Splice.append] at same
  have moved {position : Nat} {first : Char} {rest after : List Char} {token : Option Token}
      (taken : piece position first rest = .ok (token, after)) :
      position + ((rest ++ tail).length + 1 - (after ++ tail).length) =
        position + (rest.length + 1 - after.length) := by
    have shorter := pieceLength taken
    simp only [List.length_append]
    omega
  induction position, chars using scanFrom.induct with
  | case1 position =>
      rw [List.nil_append, scanFromNil, List.length_nil, Nat.add_zero]
      cases scanFrom position tail <;> rfl
  | case2 position first rest cause refused =>
      rw [List.cons_append, scanFromCons, scanFromCons, same, refused]
      rfl
  | case3 position first rest token after taken cause refused inductionHypothesis =>
      rw [refused] at inductionHypothesis
      rw [List.cons_append, scanFromCons, scanFromCons, same, taken]
      simp only [Splice.afterPiece, moved taken, inductionHypothesis, refused]
  | case4 position first rest token after taken others reached inductionHypothesis =>
      have shorter := pieceLength taken
      have ends : position + (rest.length + 1 - after.length) + after.length =
          position + (rest.length + 1) := by omega
      rw [reached] at inductionHypothesis
      rw [List.cons_append, scanFromCons, scanFromCons, same, taken]
      simp only [Splice.afterPiece, moved taken, inductionHypothesis, reached, ends,
        List.length_cons]
      cases scanFrom (position + (rest.length + 1)) tail <;> simp

theorem blankBoundary {c : Char} (blank : Text.isBlank c) : boundary c := by
  have digit : c.isDigit = false := by
    rw [Bool.eq_false_iff]
    intro digit
    obtain ⟨low, high⟩ := Char.isDigit_iff_toNat.mp digit
    rw [show '0'.toNat = 48 by decide] at low
    rw [show '9'.toNat = 57 by decide] at high
    simp only [Text.isBlank, Bool.or_eq_true, Bool.and_eq_true, decide_eq_true_eq,
      beq_iff_eq] at blank
    omega
  have others : ∀ word ∈ words, c ∉ word.spelling := by
    intro word member inside
    have checked : (words.all fun word => word.spelling.all fun c => !Text.isBlank c) = true := by
      decide
    have shown := List.all_eq_true.mp (List.all_eq_true.mp checked word member) c inside
    rw [blank] at shown
    cases shown
  have numeral : inNumeral c = false := by
    simp only [inNumeral, digit, Bool.false_or, Bool.or_eq_false_iff, beq_eq_false_iff_ne]
    refine ⟨⟨⟨?_, ?_⟩, ?_⟩, ?_⟩ <;> rintro rfl <;> exact absurd blank (by decide)
  simp only [boundary, numeral, Bool.not_false, Bool.true_and, List.all_eq_true]
  intro word member
  simpa using others word member

theorem scanBlanks (position : Nat) {blanks : List Char} (blank : ∀ c ∈ blanks, Text.isBlank c)
    (rest : List Char) :
    scanFrom position (blanks ++ rest) = scanFrom (position + blanks.length) rest := by
  induction blanks generalizing position with
  | nil => rfl
  | cons c others inductionHypothesis =>
      have taken : piece position c (others ++ rest) = .ok (none, others ++ rest) := by
        rw [piece, if_pos (blank c (by simp))]
      have moved : position + ((others ++ rest).length + 1 - (others ++ rest).length) +
          others.length = position + (others.length + 1) := by omega
      rw [List.cons_append, scanFromCons, taken]
      simp only [inductionHypothesis _ fun c member => blank c (by simp [member]), moved,
        List.length_cons]
      cases scanFrom (position + (others.length + 1)) rest <;> rfl

/-- The blanks around a text only move its positions. -/
theorem scanTrim (position : Nat) (chars : List Char) :
    scanFrom position chars =
      scanFrom (position + (chars.takeWhile Text.isBlank).length) (Text.trim chars) := by
  obtain ⟨after, blank, split⟩ := Text.trimSplits chars
  have before : ∀ c ∈ chars.takeWhile Text.isBlank, Text.isBlank c :=
    fun c member => List.all_eq_true.mp List.all_takeWhile c member
  have bound : ∀ c ∈ after.head?, boundary c :=
    fun c member => blankBoundary (blank c (List.mem_of_mem_head? member))
  have nothing (position : Nat) : scanFrom position after = .ok [] := by
    rw [← List.append_nil after, scanBlanks position blank, scanFromNil]
  conv => lhs; rw [split]
  rw [scanBlanks position before, scanAppend _ _ bound]
  simp only [nothing, List.append_nil]
  cases scanFrom (position + (chars.takeWhile Text.isBlank).length) (Text.trim chars) <;> rfl

/-- A blank only ends what stands before it. -/
theorem scanBlank (position : Nat) (chars : List Char) {c : Char} (blank : Text.isBlank c)
    (tail : List Char) :
    scanFrom position (chars ++ c :: tail) =
      match scanFrom position chars with
      | .error cause => .error cause
      | .ok tokens =>
        match scanFrom (position + (chars.length + 1)) tail with
        | .error cause => .error cause
        | .ok others => .ok (tokens ++ others) := by
  have bound : ∀ first ∈ (c :: tail).head?, boundary first := by
    intro first member
    rw [← Option.some.inj member]
    exact blankBoundary blank
  have single : ∀ first ∈ [c], Text.isBlank first := by simpa using blank
  have skipped := scanBlanks (position + chars.length) single tail
  rw [scanAppend position chars bound]
  rw [List.singleton_append, List.length_singleton, Nat.add_assoc] at skipped
  rw [skipped]

end Lexeme

/-- The two sides of a blank are scanned apart. An error before the blank is the error of the whole
text, and an unexpected character after the blank has its position in the whole text. -/
theorem Token.scanAcrossBlank (first second : String) {c : Char} (blank : Text.isBlank c) :
    (∀ cause, scan first = .error cause → scan (first ++ c.toString ++ second) = .error cause) ∧
    (∀ tokens others, scan first = .ok tokens → scan second = .ok others →
      scan (first ++ c.toString ++ second) = .ok (tokens ++ others)) ∧
    ∀ tokens cause, scan first = .ok tokens → scan second = .error cause →
      scan (first ++ c.toString ++ second) = .error (cause.moved (first.length + 1)) := by
  have text : (first ++ c.toString ++ second).toList = first.toList ++ c :: second.toList := by
    simp [Char.toString]
  have whole := Lexeme.scanBlank 0 first.toList blank second.toList
  rw [Lexeme.scanMoved, String.length_toList] at whole
  simp only [scan, text, whole]
  refine ⟨fun cause refused => ?_, fun tokens others before after => ?_,
    fun tokens cause before after => ?_⟩
  · rw [refused]
  · rw [before, after]
    rfl
  · rw [before, after]
    rfl

/-- Neither the point before the blank nor the point after it reaches across the blank. -/
theorem Token.scanAcrossBlankPoint : Text.isBlank '\u2009' ∧
    scan "2." = .ok [.number 2] ∧ scan ".5@" = .error (.unexpectedCharacter '@' 2) ∧
    scan "2.\u2009.5@" = .error (.unexpectedCharacter '@' 5) := by
  have blank : Text.isBlank '\u2009' := by decide
  have before : scan "2." = .ok [.number 2] := by decide +kernel
  have after : scan ".5@" = .error (.unexpectedCharacter '@' 2) := by decide +kernel
  exact ⟨blank, before, after, (scanAcrossBlank "2." ".5@" blank).2.2 _ _ before after⟩

end Calculator
