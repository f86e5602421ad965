/-
This file cuts an expression into its tokens.
-/

import Calculator.Decimal.Numeral
import Calculator.Error
import Calculator.Text.Blank

namespace Calculator

namespace Lexeme

def symbol? : Char → Option Token
  | '(' => some .opening
  | ')' => some .closing
  | '+' => some (.operator .add)
  | '-' => some (.operator .sub)
  | '*' | '×' => some (.operator .mul)
  | '/' | '÷' => some (.operator .div)
  | '^' => some (.operator .pow)
  | '!' => some .factorial
  | 'π' => some .pi
  | '√' => some (.function .sqrt)
  | _ => none

/-- These tokens are spelled with letters, and the case of a letter counts. -/
def words : List Token :=
  [.function .sqrt, .function (.angle .sin), .function (.angle .cos), .function (.angle .tan),
    .function .log, .function .ln, .function .abs, .answer]

def word? (chars : List Char) : Option Token :=
  words.find? fun token => token.spelling.isPrefixOf chars

/-- The fault of a number without the digits of its exponent is the text up to there. -/
def number (chars : List Char) : Except SyntaxError (Token × List Char) :=
  match Numeral.read (· == 'E') chars with
  | .ok (decimal, after) => .ok (.number decimal.toFloat, after)
  | .error after =>
    .error (.invalidNumber (String.ofList (chars.take (chars.length - after.length))))

/-- A blank gives no token. -/
def piece (position : Nat) (first : Char) (rest : List Char) :
    Except SyntaxError (Option Token × List Char) :=
  if Text.isBlank first then .ok (none, rest)
  else match symbol? first with
    | some token => .ok (some token, rest)
    | none =>
      if Numeral.starts first rest then
        match number (first :: rest) with
        | .ok (token, after) => .ok (some token, after)
        | .error cause => .error cause
      else match word? (first :: rest) with
        | some token => .ok (some token, rest.drop (token.spelling.length - 1))
        | none => .error (.unexpectedCharacter first position)

theorem numberLength {first : Char} {rest after : List Char} {token : Token}
    (started : Numeral.starts first rest) (taken : number (first :: rest) = .ok (token, after)) :
    after.length ≤ rest.length := by
  unfold number at taken
  split at taken
  · rename_i decimal tail reached
    simp only [Except.ok.injEq, Prod.mk.injEq] at taken
    rw [← taken.2]
    exact Numeral.readLength started reached
  · exact absurd taken (by simp)

/-- Every piece takes its first character. -/
theorem pieceLength {position : Nat} {first : Char} {rest after : List Char} {token : Option Token}
    (taken : piece position first rest = .ok (token, after)) : after.length ≤ rest.length := by
  unfold piece at taken
  split at taken
  · simp only [Except.ok.injEq, Prod.mk.injEq] at taken
    exact taken.2 ▸ Nat.le_refl _
  · split at taken
    · simp only [Except.ok.injEq, Prod.mk.injEq] at taken
      exact taken.2 ▸ Nat.le_refl _
    · split at taken
      · rename_i started
        split at taken
        · rename_i token tail reached
          simp only [Except.ok.injEq, Prod.mk.injEq] at taken
          rw [← taken.2]
          exact numberLength started reached
        · exact absurd taken (by simp)
      · split at taken
        · simp only [Except.ok.injEq, Prod.mk.injEq] at taken
          rw [← taken.2, List.length_drop]
          omega
        · exact absurd taken (by simp)

/-- The pieces follow each other to the end of the text. -/
def scanFrom (position : Nat) (chars : List Char) : Except SyntaxError (List Token) :=
  match chars with
  | [] => .ok []
  | first :: rest =>
    match _ : piece position first rest with
    | .error cause => .error cause
    | .ok (token, after) =>
      match scanFrom (position + (rest.length + 1 - after.length)) after with
      | .error cause => .error cause
      | .ok tokens => .ok (token.toList ++ tokens)
termination_by chars.length
decreasing_by
  have := pieceLength ‹piece _ _ _ = _›
  simp only [List.length_cons]
  omega

end Lexeme

/-- These are the tokens of a text from left to right. -/
def Token.scan (text : String) : Except SyntaxError (List Token) :=
  Lexeme.scanFrom 0 text.toList

end Calculator
