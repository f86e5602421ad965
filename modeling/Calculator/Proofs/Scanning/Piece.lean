/-
This file holds the pieces of a text: its blanks, its symbols, its words and its numbers.
-/

import Calculator.Proofs.Binary64.Closest
import Calculator.Token.Lexeme

namespace Calculator.Lexeme

/-- One character spells each of these tokens. -/
def symbols : List (Char × Token) :=
  [('(', .opening), (')', .closing), ('+', .operator .add), ('-', .operator .sub),
    ('*', .operator .mul), ('×', .operator .mul), ('/', .operator .div), ('÷', .operator .div),
    ('^', .operator .pow), ('!', .factorial), ('π', .pi), ('√', .function .sqrt)]

def vocabulary : List (String × Token) :=
  [("sqrt", .function .sqrt), ("sin", .function (.angle .sin)), ("cos", .function (.angle .cos)),
    ("tan", .function (.angle .tan)), ("log", .function .log), ("ln", .function .ln),
    ("Abs", .function .abs), ("Ans", .answer)]

/-- A run of digits is as long as it can be. -/
structure Run (digits rest : List Char) : Prop where
  digit : ∀ c ∈ digits, c.isDigit
  stops : ∀ c ∈ rest.head?, c.isDigit = false

/-- A point belongs to a number even if no digit follows it. -/
inductive Pointed : List Char → List Char → List Char → Prop where
  | without {rest : List Char} : '.' ∉ rest.head? → Pointed [] [] rest
  | point {fraction rest : List Char} : Run fraction rest → Pointed ('.' :: fraction) fraction rest

/-- The unit of a sign is one or minus one. -/
inductive Signed : List Char → Int → List Char → Prop where
  | without {rest : List Char} : '+' ∉ rest.head? → '-' ∉ rest.head? → Signed [] 1 rest
  | plus {rest : List Char} : Signed ['+'] 1 rest
  | minus {rest : List Char} : Signed ['-'] (-1) rest

/-- The mark of an exponent has digits after it and after its sign. -/
inductive Scaled : List Char → Int → List Char → Prop where
  | without {rest : List Char} : 'E' ∉ rest.head? → Scaled [] 0 rest
  | mark {sign digits rest : List Char} {unit : Int} : Signed sign unit (digits ++ rest) →
      Run digits rest → digits ≠ [] →
      Scaled ('E' :: (sign ++ digits)) (unit * Nat.ofDigitChars 10 digits 0) rest

/-- A number starts with a digit, or with a point before a digit. -/
structure Mantissa (whole point fraction rest : List Char) : Prop where
  run : Run whole (point ++ rest)
  pointed : Pointed point fraction rest
  present : whole ≠ [] ∨ fraction ≠ []

/-- The text of a number denotes a rational number. -/
inductive NumberText : List Char → Rat → List Char → Prop where
  | exponent {whole point fraction power rest : List Char} {exponent : Int} :
      Mantissa whole point fraction (power ++ rest) → Scaled power exponent rest →
      NumberText (whole ++ (point ++ power))
        (Nat.ofDigitChars 10 (whole ++ fraction) 0 * 10 ^ (exponent - fraction.length)) rest

/-- No digit follows the mark and the sign of the exponent in a faulty number. -/
inductive Faulty : List Char → List Char → Prop where
  | mark {whole point fraction sign rest : List Char} {unit : Int} :
      Mantissa whole point fraction ('E' :: (sign ++ rest)) → Signed sign unit rest →
      (∀ c ∈ rest.head?, c.isDigit = false) → Faulty (whole ++ (point ++ 'E' :: sign)) rest

/-- A piece stands before the rest of the text. A blank has no token, and the token of a number is
the closest binary64 number. -/
inductive Piece : List Char → Option Token → List Char → Prop where
  | blank {c : Char} {rest : List Char} : Text.isBlank c → Piece [c] none rest
  | symbol {c : Char} {token : Token} {rest : List Char} :
      (c, token) ∈ symbols → Piece [c] (some token) rest
  | word {letters : String} {token : Token} {rest : List Char} :
      (letters, token) ∈ vocabulary → Piece letters.toList (some token) rest
  | number {text rest : List Char} {value : Rat} {x : Float} :
      NumberText text value rest → Binary64.Closest value x → Piece text (some (.number x)) rest

/-- The pieces of a text follow each other from the left up to the rest. -/
inductive Cut : List Char → List (List Char × Option Token) → List Char → Prop where
  | stop (rest : List Char) : Cut rest [] rest
  | piece {text others rest : List Char} {token : Option Token}
      {pieces : List (List Char × Option Token)} :
      Piece text token others → Cut others pieces rest →
      Cut (text ++ others) ((text, token) :: pieces) rest

/-- Neither a piece nor a faulty number starts with an unexpected character. -/
inductive Stops : Nat → List Char → SyntaxError → Prop where
  | character {position : Nat} {c : Char} {rest : List Char} :
      (∀ text token after, Piece text token after → text ++ after ≠ c :: rest) →
      (∀ text after, Faulty text after → text ++ after ≠ c :: rest) →
      Stops position (c :: rest) (.unexpectedCharacter c position)
  | number {position : Nat} {text rest : List Char} :
      Faulty text rest → Stops position (text ++ rest) (.invalidNumber (String.ofList text))

/-- This is the text of some pieces. -/
def joined (pieces : List (List Char × Option Token)) : List Char :=
  pieces.flatMap Prod.fst

/-- These are the tokens of some pieces in their order. -/
def tokensOf (pieces : List (List Char × Option Token)) : List Token :=
  pieces.filterMap Prod.snd

theorem Cut.joined {chars rest : List Char} {pieces : List (List Char × Option Token)}
    (cut : Cut chars pieces rest) : chars = joined pieces ++ rest := by
  induction cut with
  | stop rest => rfl
  | @piece text others rest token pieces _ _ inductionHypothesis =>
      show text ++ others = text ++ Lexeme.joined pieces ++ rest
      rw [List.append_assoc, ← inductionHypothesis]

end Calculator.Lexeme
