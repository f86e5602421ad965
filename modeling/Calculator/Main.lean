/-
This file connects the program to its files and its streams.
-/

import Calculator.CommandLine.Run

namespace Calculator.CommandLine

/-- An unreadable file has no text. -/
def readSettings (path : String) : IO (Option String) := do
  try
    return some (← IO.FS.readFile path)
  catch _ =>
    return none

def printLines (output : IO.FS.Stream) (lines : List String) : IO Unit := do
  lines.forM output.putStrLn
  output.flush

/-- The bytes before the next line feed are read one by one, so that a line is answered as soon as
it is complete. The last line may have no line feed. -/
partial def readLine (input : IO.FS.Stream) (reversed : List UInt8) : IO (Option (List UInt8)) := do
  match (← input.read 1).toList with
  | [] => return if reversed.isEmpty then none else some reversed.reverse
  | byte :: _ =>
    if byte = 0x0A then return some reversed.reverse
    else readLine input (byte :: reversed)

partial def talk (input output : IO.FS.Stream) (session : Session) : IO UInt32 := do
  match ← readLine input [] with
  | none => return 0
  | some line =>
    match decodeLine line with
    | none => return 1
    | some line =>
      let ⟨next, lines⟩ := turn session line
      printLines output lines
      match next with
      | some session => talk input output session
      | none => return 0

def execute (invocation : Invocation) : IO UInt32 := do
  let text ← match invocation.settings with
    | some path => readSettings path
    | none => pure none
  match invocation.resolve fun _ => text with
  | none =>
    IO.eprintln "Error: réglages illisibles ou invalides"
    return 1
  | some settings =>
    let output ← IO.getStdout
    match invocation.action with
    | .evaluate expression answer json steps =>
      let response := report settings expression answer json steps
      output.putStr response.output
      output.flush
      return response.code.toUInt32
    | .converse => talk (← IO.getStdin) output { settings := settings }

def usage : String := "Usage: calculatrice <evaluate|repl> [OPTIONS]"

/-- An inquiry succeeds even if its answer cannot be written. -/
def stop : Stop → IO UInt32
  | .refused => do
    IO.eprintln usage
    return 2
  | .inquiry => do
    try
      IO.println usage
    catch _ =>
      pure ()
    return 0

end Calculator.CommandLine

def main (arguments : List String) : IO UInt32 := do
  match Calculator.CommandLine.Invocation.ofArguments arguments with
  | .error cause => Calculator.CommandLine.stop cause
  | .ok invocation =>
    try
      Calculator.CommandLine.execute invocation
    catch failure =>
      IO.eprintln s!"Error: {failure}"
      return 1
