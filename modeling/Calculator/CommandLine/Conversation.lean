/-
This file holds a conversation, where each line is a command or a part of an expression.
-/

import Calculator.CommandLine.Response
import Calculator.Session

namespace Calculator.CommandLine

inductive Command where
  | quit
  | angle (unit : AngleUnit)
  | format (mode : DisplayMode)
  | toggle
  | answer
  | delete
  | clear
  | tutor
  | unknown

namespace Command

def ofName : String → Command
  | "quit" | "q" => .quit
  | "deg" => .angle .degree
  | "rad" => .angle .radian
  | "gra" => .angle .gradian
  | "norm" => .format .normal
  | "sci" => .format .scientific
  | "fmt" => .toggle
  | "ans" => .answer
  | "del" => .delete
  | "ac" => .clear
  | "tuteur" => .tutor
  | _ => .unknown

end Command

/-- A result that shows nothing has no line. -/
def resultLines (session : Session) : List String :=
  if session.result.isEmpty then [] else [session.result]

def perform (session : Session) : Command → Session × List String
  | .quit | .unknown => (session, [])
  | .angle unit => (session.setAngle unit, [])
  | .format mode =>
    let session := if session.settings.format = mode then session else session.toggleFormat
    (session, resultLines session)
  | .toggle => (session.toggleFormat, resultLines session.toggleFormat)
  | .answer => (session, [session.settings.format.render session.answer])
  | .delete => (session.delete, [session.delete.expression])
  | .clear => (session.clear, [])
  | .tutor => (session, [session.tutorRequest.request, session.tutorRequest.context])

/-- An empty line executes the expression once more. -/
def submit (session : Session) (line : String) : Session × List String :=
  let entered := if line.isEmpty then session else session.enter line
  match entered.execute with
  | (session, some _) => (session, [session.result])
  | (session, none) => (session, [])

/-- A turn ends the conversation when it has no session for the next one. -/
structure Turn where
  next : Option Session
  lines : List String

def turn (session : Session) (line : String) : Turn :=
  match Text.trim line.toList with
  | ':' :: name =>
    match Command.ofName (String.ofList name) with
    | .quit => ⟨none, []⟩
    | command =>
      let (session, lines) := perform session command
      ⟨some session, lines⟩
  | chars =>
    let (session, lines) := submit session (String.ofList chars)
    ⟨some session, lines⟩

/-- A line that is no text ends the conversation with a failure. -/
def transcript (session : Session) : List (Option String) → Nat × List String
  | [] => (0, [])
  | none :: _ => (1, [])
  | some line :: rest =>
    match turn session line with
    | ⟨none, lines⟩ => (0, lines)
    | ⟨some session, lines⟩ =>
      let (code, later) := transcript session rest
      (code, lines ++ later)

/-- A line feed ends a line, and the last line may have none. -/
def splitLines : List UInt8 → List (List UInt8)
  | [] => []
  | byte :: rest =>
    if byte = 0x0A then [] :: splitLines rest
    else match splitLines rest with
      | line :: lines => (byte :: line) :: lines
      | [] => [[byte]]

def decodeLine (line : List UInt8) : Option String :=
  String.fromUTF8? line.toByteArray

def converse (settings : Settings) (input : ByteArray) : Response :=
  let session : Session := { settings := settings }
  let (code, lines) := transcript session ((splitLines input.toList).map decodeLine)
  .ofLines code lines

end Calculator.CommandLine
