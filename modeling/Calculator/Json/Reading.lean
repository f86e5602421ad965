/-
This file reads a JSON value from its text.
-/

import Calculator.Json.Lexeme

namespace Calculator.Json

/-- An open container holds its elements in reverse order. -/
inductive Container where
  | array (items : List Json)
  | object (members : List (Option String × Json)) (name : Option String)

/-- A bracket or a brace may be closed at once, but not after a comma. -/
inductive Phase where
  | value
  | firstItem
  | firstName
  | name (members : List (Option String × Json))
  | colon (members : List (Option String × Json)) (name : Option String)
  | complete (value : Json)

structure Reader where
  stack : List Container
  phase : Phase

namespace Reader

def begin (stack : List Container) : Lexeme → Option Reader
  | .scalar value => some ⟨stack, .complete value⟩
  | .beginArray => some ⟨stack, .firstItem⟩
  | .beginObject => some ⟨stack, .firstName⟩
  | _ => none

def member (stack : List Container) (members : List (Option String × Json)) :
    Lexeme → Option Reader
  | .scalar (.string name) => some ⟨stack, .colon members name⟩
  | _ => none

/-- A value belongs to the innermost container. -/
def close (value : Json) : List Container → Lexeme → Option Reader
  | .array items :: stack, .comma => some ⟨.array (value :: items) :: stack, .value⟩
  | .array items :: stack, .endArray =>
    some ⟨stack, .complete (.array (value :: items).reverse)⟩
  | .object members name :: stack, .comma => some ⟨stack, .name ((name, value) :: members)⟩
  | .object members name :: stack, .endObject =>
    some ⟨stack, .complete (.object ((name, value) :: members).reverse)⟩
  | _, _ => none

def step (reader : Reader) (lexeme : Lexeme) : Option Reader :=
  match reader.phase, lexeme with
  | .value, _ => begin reader.stack lexeme
  | .firstItem, .endArray => some ⟨reader.stack, .complete (.array [])⟩
  | .firstItem, _ => begin (.array [] :: reader.stack) lexeme
  | .firstName, .endObject => some ⟨reader.stack, .complete (.object [])⟩
  | .firstName, _ => member reader.stack [] lexeme
  | .name members, _ => member reader.stack members lexeme
  | .colon members name, .colon => some ⟨.object members name :: reader.stack, .value⟩
  | .colon _ _, _ => none
  | .complete value, _ => close value reader.stack lexeme

def run (reader : Reader) : List Lexeme → Option Reader
  | [] => some reader
  | lexeme :: rest =>
    match reader.step lexeme with
    | some reader => reader.run rest
    | none => none

end Reader

/-- The text holds one value and blanks around it. -/
def read? (text : String) : Option Json := do
  let lexemes ← lexemes? text.toList
  let reader ← Reader.run ⟨[], .value⟩ lexemes
  match reader with
  | ⟨[], .complete value⟩ => some value
  | _ => none

end Calculator.Json
