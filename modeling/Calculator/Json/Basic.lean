/-
This file holds JSON values.
-/

namespace Calculator

/-- A string with an unpaired surrogate is well formed, but it has no text. -/
inductive Json where
  | null
  | boolean (value : Bool)
  | number (text : String)
  | string (text : Option String)
  | array (items : List Json)
  | object (members : List (Option String × Json))

/-- The marks of a JSON text stand around its scalars. -/
inductive Json.Lexeme where
  | beginArray
  | endArray
  | beginObject
  | endObject
  | comma
  | colon
  | scalar (value : Json)

end Calculator
