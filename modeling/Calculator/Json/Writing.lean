/-
This file writes JSON texts without blanks.
-/

import Calculator.Decimal.Layout
import Calculator.Decimal.Shortest
import Calculator.Json.Basic

namespace Calculator.Json

def hexDigit (digit : Nat) : Char :=
  Nat.digitChar digit

/-- The control characters are escaped, and the others are written as they are. -/
def escaped (c : Char) : List Char :=
  match c with
  | '"' => ['\\', '"']
  | '\\' => ['\\', '\\']
  | '\x08' => ['\\', 'b']
  | '\x0C' => ['\\', 'f']
  | '\n' => ['\\', 'n']
  | '\r' => ['\\', 'r']
  | '\t' => ['\\', 't']
  | c =>
    if c.toNat < 0x20 then
      ['\\', 'u', '0', '0', hexDigit (c.toNat / 16), hexDigit (c.toNat % 16)]
    else [c]

def writeString (text : String) : String :=
  String.ofList ('"' :: text.toList.flatMap escaped ++ ['"'])

def writeBoolean (value : Bool) : String :=
  if value then "true" else "false"

/-- The decimals of these orders have no exponent. -/
def plainOrders (order : Int) : Bool :=
  -5 ≤ order && order ≤ 15

/-- A number always has a fraction or an exponent, and the exponent always has a sign. -/
def layout (decimal : Decimal) : List Char :=
  let order := decimal.lead
  if plainOrders order then
    if 0 ≤ decimal.exponent then decimal.positional ++ ['.', '0'] else decimal.positional
  else
    let sign := if order < 0 then '-' else '+'
    decimal.mantissa ++ 'e' :: sign :: Nat.toDigits 10 order.natAbs

/-- A number has the fewest digits that read back, and a tie goes to the even digit. JSON has no
infinite number. -/
def writeNumber (x : Float) : String :=
  if x.isFinite then
    let decimal := if Binary64.significand x = 0 then ⟨0, 0⟩ else Decimal.shortest .even x.abs
    String.ofList ((if Binary64.negative x then ['-'] else []) ++ layout decimal)
  else "null"

/-- The members keep their order. -/
def writeObject (members : List (String × String)) : String :=
  let written := members.map fun (name, value) => writeString name ++ ":" ++ value
  "\x7b" ++ String.intercalate "," written ++ "\x7d"

end Calculator.Json
