/-
This file calculates the display of an expression from its text.
-/

import Calculator.Display
import Calculator.Evaluation
import Calculator.Expr.Reading
import Calculator.Token.Juxtaposition
import Calculator.Token.Lexeme

namespace Calculator

/-- The steps show the tokens as typed, the tokens with every product, and the tree. -/
structure Steps where
  tokens : String
  resolved : String
  tree : String
  deriving DecidableEq

structure Analysis where
  expr : Expr
  steps : Steps
  deriving DecidableEq

/-- The blanks around the text count neither as input nor in a position. -/
def analyse (text : String) : Except SyntaxError Analysis :=
  let chars := Text.trim text.toList
  if chars.isEmpty then .error .emptyInput
  else match Lexeme.scanFrom 0 chars with
    | .error cause => .error cause
    | .ok tokens =>
      let resolved := Token.withProducts tokens
      match Expr.ofTokens resolved with
      | .error cause => .error cause
      | .ok expr => .ok ⟨expr, ⟨Token.text tokens, Token.text resolved, expr.text⟩⟩

def evaluate (text : String) (answer : Float) (unit : AngleUnit) : Except Error (Float × Steps) :=
  match analyse text with
  | .error cause => .error (.syntactic cause)
  | .ok analysis =>
    match analysis.expr.evaluate answer unit with
    | .error cause => .error (.mathematical cause)
    | .ok x => .ok (x, analysis.steps)

/-- A success has a new answer, and a failure has none. -/
structure Outcome where
  display : String
  answer : Option Float
  deriving DecidableEq

namespace Outcome

def updatesAnswer (outcome : Outcome) : Bool :=
  outcome.answer.isSome

def ofResult (mode : DisplayMode) : Except Error Float → Outcome
  | .ok x => ⟨mode.render x, some x⟩
  | .error cause => ⟨cause.display, none⟩

end Outcome

/-- An expression that cannot be evaluated still has its steps. -/
def calculateWithSteps (text : String) (answer : Float) (unit : AngleUnit) (mode : DisplayMode) :
    Outcome × Option Steps :=
  match analyse text with
  | .error cause => (.ofResult mode (.error (.syntactic cause)), none)
  | .ok analysis =>
    let result := (analysis.expr.evaluate answer unit).mapError Error.mathematical
    (.ofResult mode result, some analysis.steps)

def calculate (text : String) (answer : Float) (unit : AngleUnit) (mode : DisplayMode) : Outcome :=
  (calculateWithSteps text answer unit mode).1

end Calculator
