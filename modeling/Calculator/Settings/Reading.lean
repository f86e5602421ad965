/-
This file reads the settings from a JSON text and writes them back.
-/

import Calculator.Json.Reading
import Calculator.Json.Writing
import Calculator.Settings

namespace Calculator

def AngleUnit.ofLabel? : String → Option AngleUnit
  | "DEG" => some .degree
  | "RAD" => some .radian
  | "GRA" => some .gradian
  | _ => none

def DisplayMode.ofLabel? : String → Option DisplayMode
  | "NORM" => some .normal
  | "SCI" => some .scientific
  | _ => none

/-- A label is a string, or the name of a single null member. -/
def Json.label? : Json → Option String
  | .string label => label
  | .object [(label, .null)] => label
  | _ => none

/-- A missing value gives the default, and a repeated one is refused. -/
def Json.choice? {Choice : Type} (ofLabel? : String → Option Choice) (default : Choice) :
    List Json → Option Choice
  | [] => some default
  | [value] => value.label?.bind ofLabel?
  | _ => none

namespace Settings

def ofValues? (angles formats : List Json) : Option Settings := do
  let angle ← Json.choice? AngleUnit.ofLabel? .degree angles
  let format ← Json.choice? DisplayMode.ofLabel? .normal formats
  return ⟨angle, format⟩

/-- An object names the settings, and an array holds them in order. Other names are ignored. -/
def ofJson? : Json → Option Settings
  | .object members =>
    let named (name : String) := members.filterMap fun member =>
      if member.1 = some name then some member.2 else none
    if members.all fun member => member.1.isSome then ofValues? (named "angle") (named "format")
    else none
  | .array items => if items.length ≤ 2 then ofValues? (items.take 1) (items.drop 1) else none
  | _ => none

def read? (text : String) : Option Settings :=
  (Json.read? text).bind ofJson?

def write (settings : Settings) : String :=
  Json.writeObject [("angle", Json.writeString settings.angle.label),
    ("format", Json.writeString settings.format.label)]

/-- All written settings are read back. -/
theorem readWrite (settings : Settings) : read? settings.write = some settings := by
  rcases settings with ⟨_ | _ | _, _ | _⟩ <;> decide +kernel

end Settings

end Calculator
