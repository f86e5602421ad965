/-
This file runs the program on its arguments and its input.
-/

import Calculator.CommandLine.Arguments
import Calculator.CommandLine.Conversation
import Calculator.CommandLine.Report

namespace Calculator.CommandLine

/-- The settings file must be readable and valid. -/
def Invocation.resolve (invocation : Invocation) (file : String → Option String) :
    Option Settings :=
  let base :=
    match invocation.settings with
    | none => some ({} : Settings)
    | some path => (file path).bind Settings.read?
  base.map fun base =>
    ⟨invocation.angle.getD base.angle, invocation.format.getD base.format⟩

/-- The answer to an inquiry is no part of the response. -/
def Stop.response : Stop → Response
  | .refused => .refused
  | .inquiry => .ofLines 0 []

def run (arguments : List String) (input : ByteArray) (file : String → Option String) : Response :=
  match Invocation.ofArguments arguments with
  | .error stop => stop.response
  | .ok invocation =>
    match invocation.resolve file with
    | none => .failed
    | some settings =>
      match invocation.action with
      | .evaluate expression answer json steps => report settings expression answer json steps
      | .converse => converse settings input

end Calculator.CommandLine
