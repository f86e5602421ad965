/-
This file reports the evaluation of one expression.
-/

import Calculator.Calculation
import Calculator.CommandLine.Response
import Calculator.Settings.Reading

namespace Calculator

def Steps.write (steps : Steps) : String :=
  Json.writeObject [("jetons", Json.writeString steps.tokens),
    ("resolus", Json.writeString steps.resolved), ("arbre", Json.writeString steps.tree)]

namespace Outcome

/-- A missing answer is null. -/
def writeAnswer (outcome : Outcome) : String :=
  match outcome.answer with
  | some x => Json.writeNumber x
  | none => "null"

def write (outcome : Outcome) : String :=
  Json.writeObject [("affichage", Json.writeString outcome.display),
    ("ans", outcome.writeAnswer)]

end Outcome

namespace CommandLine

/-- The steps come last, and only when there are some. -/
def writeReport (settings : Settings) (outcome : Outcome) (steps : Option Steps) : String :=
  Json.writeObject ([("affichage", Json.writeString outcome.display),
    ("ans", outcome.writeAnswer), ("maj_ans", Json.writeBoolean outcome.updatesAnswer),
    ("reglages", settings.write)] ++ steps.toList.map fun steps => ("demarche", steps.write))

def stepLines (steps : Steps) : List String :=
  ["jetons : " ++ steps.tokens, "résolus: " ++ steps.resolved, "arbre  : " ++ steps.tree]

/-- The exit code tells a value from an error. -/
def report (settings : Settings) (expression : String) (answer : Float) (json withSteps : Bool) :
    Response :=
  let (outcome, steps) := calculateWithSteps expression answer settings.angle settings.format
  let steps := if withSteps then steps else none
  let lines :=
    if json then [writeReport settings outcome steps]
    else steps.toList.flatMap stepLines ++ [outcome.display]
  .ofLines (if outcome.updatesAnswer then 0 else 1) lines

end CommandLine

end Calculator
