/-
This file holds what a run of the program leaves behind.
-/

namespace Calculator.CommandLine

structure Response where
  code : Nat
  output : String
  deriving DecidableEq

namespace Response

/-- Each line ends with a line feed. -/
def ofLines (code : Nat) (lines : List String) : Response :=
  ⟨code, String.join (lines.map (· ++ "\n"))⟩

def refused : Response :=
  ⟨2, ""⟩

def failed : Response :=
  ⟨1, ""⟩

/-- The first line that cannot be written ends the run. -/
def undelivered (response : Response) : Response :=
  if response.output.isEmpty then response else failed

end Response

end Calculator.CommandLine
