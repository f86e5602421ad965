/-
This file holds the state of a session and the actions of its keys.
-/

import Calculator.Calculation
import Calculator.Settings

namespace Calculator

/-- The flag says that the result shows a value and not an error. -/
structure Session where
  expression : String := ""
  result : String := ""
  answer : Float := 0
  settings : Settings := {}
  succeeded : Bool := false
  deriving DecidableEq

/-- A tutor gets a request and the context of the session. -/
structure TutorRequest where
  request : String
  context : String
  deriving DecidableEq

namespace Session

def clearResult (session : Session) : Session :=
  { session with result := "", succeeded := false }

/-- A text that starts with one of these operators continues from the last answer. -/
def continues (text : String) : Bool :=
  match text.toList with
  | first :: _ => ['+', '-', '×', '÷', '*', '/', '^'].contains first
  | [] => false

/-- A text after a result starts a new expression. -/
def enter (session : Session) (text : String) : Session :=
  if session.result.isEmpty then { session with expression := session.expression ++ text }
  else { session with expression := if continues text then "Ans" ++ text else text }.clearResult

/-- One key writes each of these texts. -/
def keys : List (List Char) :=
  ["sin(", "cos(", "tan(", "log(", "ln(", "√(", "Abs(", "Ans"].map String.toList

/-- The last key of a text is a whole word or one character. -/
def dropKey (chars : List Char) : List Char :=
  match keys.find? fun key => key.isSuffixOf chars with
  | some key => chars.take (chars.length - key.length)
  | none => chars.dropLast

def dropSpaces (chars : List Char) : List Char :=
  (chars.reverse.dropWhile (· == ' ')).reverse

def delete (session : Session) : Session :=
  { session with
    expression := String.ofList (dropKey (dropSpaces session.expression.toList)) }.clearResult

def clear (session : Session) : Session :=
  { session with expression := "" }.clearResult

/-- The execution of a blank expression does nothing. -/
def execute (session : Session) : Session × Option Outcome :=
  if (Text.trim session.expression.toList).isEmpty then (session, none)
  else
    let settings := session.settings
    let outcome := calculate session.expression session.answer settings.angle settings.format
    ({ session with
        result := outcome.display
        succeeded := outcome.updatesAnswer
        answer := outcome.answer.getD session.answer }, some outcome)

/-- A shown value is shown again in the new format. -/
def toggleFormat (session : Session) : Session :=
  let format := session.settings.format.other
  { session with
    settings := { session.settings with format := format }
    result := if session.succeeded then format.render session.answer else session.result }

def setAngle (session : Session) (unit : AngleUnit) : Session :=
  { session with settings := { session.settings with angle := unit } }

/-- The request is the expression, or the result without one. -/
def tutorRequest (session : Session) : TutorRequest where
  request :=
    if !session.expression.isEmpty then session.expression
    else if !session.result.isEmpty then session.result
    else "Help me with math."
  context :=
    "Mode: Calculate. Angle Unit: " ++ session.settings.angle.label ++
      ". Previous Result: " ++ session.result ++
      ". Current Expression: " ++ session.expression

end Session

end Calculator
