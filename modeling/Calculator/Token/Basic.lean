/-
This file holds the tokens of an expression and their spelling.
-/

import Calculator.Decimal.Layout
import Calculator.Decimal.Shortest

namespace Calculator

/-- These functions read their argument as an angle. -/
inductive AngleFunction where
  | sin
  | cos
  | tan
  deriving DecidableEq

inductive NamedFunction where
  | angle (f : AngleFunction)
  | log
  | ln
  | sqrt
  | abs
  deriving DecidableEq

inductive Operator where
  | add
  | sub
  | mul
  | div
  | pow
  deriving DecidableEq

inductive Token where
  | number (x : Float)
  | pi
  | answer
  | function (f : NamedFunction)
  | operator (op : Operator)
  | factorial
  | opening
  | closing
  deriving DecidableEq

def NamedFunction.name : NamedFunction → String
  | .angle .sin => "sin"
  | .angle .cos => "cos"
  | .angle .tan => "tan"
  | .log => "log"
  | .ln => "ln"
  | .sqrt => "sqrt"
  | .abs => "Abs"

def Operator.symbol : Operator → Char
  | .add => '+'
  | .sub => '-'
  | .mul => '*'
  | .div => '/'
  | .pow => '^'

/-- A number is spelled with the fewest positional digits that read back, and a tie goes up. -/
def spellNumber (x : Float) : List Char :=
  if x.isNaN then "NaN".toList
  else
    let sign := if Binary64.negative x then ['-'] else []
    if x.isInf then sign ++ "inf".toList
    else if Binary64.significand x = 0 then sign ++ ['0']
    else sign ++ (Decimal.shortest .upward x.abs).positional

def Token.spelling : Token → List Char
  | .number x => spellNumber x
  | .pi => ['π']
  | .answer => "Ans".toList
  | .function f => f.name.toList
  | .operator op => [op.symbol]
  | .factorial => ['!']
  | .opening => ['(']
  | .closing => [')']

/-- One space stands between two tokens. -/
def Token.spellAll : List Token → List Char
  | [] => []
  | [token] => token.spelling
  | token :: rest => token.spelling ++ ' ' :: spellAll rest

def Token.text (tokens : List Token) : String :=
  String.ofList (spellAll tokens)

end Calculator
