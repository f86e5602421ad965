/-
This file reads an expression by calls that call each other, and it records what the calls do.
-/

import Calculator.Expr.Reading

namespace Calculator

namespace Operator

/-- An operator binds the operand before it with this strength. -/
def leftStrength : Operator → Nat
  | .add | .sub => 1
  | .mul | .div => 3
  | .pow => 7

/-- The operand after an operator ends before any operator of less strength than this. -/
def rightStrength : Operator → Nat
  | .add | .sub => 2
  | .mul | .div => 4
  | .pow => 6

end Operator

namespace Descent

def signStrength : Nat := 5

def factorialStrength : Nat := 9

/-- The depth counts the calls that are open. -/
structure Cursor where
  position : Nat
  depth : Nat
  deriving DecidableEq

def Cursor.next (cursor : Cursor) : Cursor :=
  { cursor with position := cursor.position + 1 }

/-- An open call looks at a token, or it returns an operand. -/
inductive Event where
  | looked (cursor : Cursor)
  | returned (entry exit : Cursor)
  deriving DecidableEq

/-- The clock may stop the calls before they end. -/
structure Record (A : Type) where
  events : List Event
  ending : Option (Except SyntaxError A)

namespace Record

variable {A B : Type}

def done (value : A) : Record A :=
  ⟨[], some (.ok value)⟩

def refused (cause : SyntaxError) : Record A :=
  ⟨[], some (.error cause)⟩

def stopped : Record A :=
  ⟨[], none⟩

def andThen (record : Record A) (next : A → Record B) : Record B :=
  match record.ending with
  | some (.ok value) => ⟨record.events ++ (next value).events, (next value).ending⟩
  | some (.error cause) => ⟨record.events, some (.error cause)⟩
  | none => ⟨record.events, none⟩

end Record

/-- A call reads an operand up to the first operator of less strength than its own. -/
abbrev Call := Nat → Cursor → Record (Expr × Cursor)

variable (tokens : List Token)

def look (cursor : Cursor) : Record (Option Token) :=
  ⟨[.looked cursor], some (.ok tokens[cursor.position]?)⟩

/-- The closing parenthesis must follow the inside. -/
def close (f : Option NamedFunction) (inside : Expr) (cursor : Cursor) : Record (Expr × Cursor) :=
  (look tokens cursor).andThen fun token =>
    match token with
    | some .closing => .done ((Reader.enclosing f).fill inside, cursor.next)
    | some _ => .refused (.unexpectedToken cursor.position)
    | none => .refused .unclosedParenthesis

/-- The opening parenthesis stands before the cursor. -/
def enclosed (call : Call) (f : Option NamedFunction) (cursor : Cursor) : Record (Expr × Cursor) :=
  (look tokens cursor).andThen fun token =>
    if token = some .closing then .refused (Reader.emptyInside f)
    else (call 0 cursor).andThen fun (inside, reached) => close tokens f inside reached

def atom (call : Call) (cursor : Cursor) : Record (Expr × Cursor) :=
  (look tokens cursor).andThen fun token =>
    match token with
    | some (.number x) => .done (.number x, cursor.next)
    | some .pi => .done (.number Binary64.pi, cursor.next)
    | some .answer => .done (.answer, cursor.next)
    | some (.operator .sub) =>
      (call signStrength cursor.next).andThen fun (operand, exit) => .done (.negate operand, exit)
    | some (.operator .add) => call signStrength cursor.next
    | some .opening => enclosed tokens call none cursor.next
    | some (.function f) =>
      (look tokens cursor.next).andThen fun second =>
        if second = some .opening then enclosed tokens call (some f) cursor.next.next
        else .refused (.missingParenthesis f)
    | _ => .refused (.missingOperand cursor.position)

/-- The operand on the left grows by the operators that follow it. -/
def extend (call : Call) : Nat → Nat → Expr → Cursor → Record (Expr × Cursor)
  | 0, _, _, _ => .stopped
  | clock + 1, least, left, cursor =>
    (look tokens cursor).andThen fun token =>
      match token with
      | some .factorial =>
        if factorialStrength < least then .done (left, cursor)
        else extend call clock least (.factorial left) cursor.next
      | some (.operator op) =>
        if op.leftStrength < least then .done (left, cursor)
        else (call op.rightStrength cursor.next).andThen fun (right, exit) =>
          extend call clock least (.binary op left right) exit
      | _ => .done (left, cursor)

/-- The inside of a call works at the raised depth. -/
def work (call : Call) (clock least : Nat) (cursor : Cursor) : Record (Expr × Cursor) :=
  (atom tokens call cursor).andThen fun (left, reached) =>
    extend tokens call clock least left reached

/-- A call raises the depth, and above the limit its inside does not start. The clock stops a call
that never ends. -/
def expression : Nat → Call
  | 0, _, _ => .stopped
  | clock + 1, least, entry =>
    if entry.depth + 1 ≤ Frame.depthLimit then
      (work tokens (expression clock) clock least ⟨entry.position, entry.depth + 1⟩).andThen
        fun (expr, reached) =>
          let exit : Cursor := ⟨reached.position, reached.depth - 1⟩
          ⟨[.returned entry exit], some (.ok (expr, exit))⟩
    else .refused .tooDeep

/-- No token may stand after the expression. -/
def parse : Record Expr :=
  if tokens.isEmpty then .refused .emptyInput
  else if tokenLimit < tokens.length then .refused (.tooLong tokens.length)
  else (expression tokens (tokens.length + 1) 0 ⟨0, 0⟩).andThen fun (expr, exit) =>
    match tokens[exit.position]? with
    | none => .done expr
    | some .closing => .refused (.unopenedParenthesis exit.position)
    | some _ => .refused (.unexpectedToken exit.position)

end Descent

end Calculator
