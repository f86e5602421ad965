/-
This file reads the tree of an expression from its tokens.
-/

import Calculator.Error
import Calculator.Expr.Basic

namespace Calculator

/-- A frame is a part of the tree that waits for its last operand. -/
inductive Frame where
  | operand (left : Expr) (op : Operator)
  | negate
  | keep
  | group
  | call (f : NamedFunction)
  deriving DecidableEq

namespace Frame

def fill (frame : Frame) (operand : Expr) : Expr :=
  match frame with
  | .operand left op => .binary op left operand
  | .negate => .negate operand
  | .keep => operand
  | .group => .group operand
  | .call f => .call f operand

def encloses : Frame → Bool
  | .group | .call _ => true
  | _ => false

/-- A frame admits an operator that belongs to its operand. Products bind more tightly than sums,
signs more tightly than products, and powers more tightly than signs. -/
def admits : Frame → Operator → Bool
  | .group, _ | .call _, _ => true
  | _, .pow => true
  | .operand _ .add, .mul | .operand _ .add, .div => true
  | .operand _ .sub, .mul | .operand _ .sub, .div => true
  | _, _ => false

/-- The frames that do not admit the operator are complete. -/
def settle (op : Operator) : List Frame → Expr → List Frame × Expr
  | [], expr => ([], expr)
  | frame :: rest, expr =>
    if frame.admits op then (frame :: rest, expr) else settle op rest (frame.fill expr)

/-- A closing parenthesis completes the innermost enclosing frame. -/
def close? : List Frame → Expr → Option (List Frame × Expr)
  | [], _ => none
  | frame :: rest, expr =>
    if frame.encloses then some (rest, frame.fill expr) else close? rest (frame.fill expr)

/-- The end of the tokens completes all frames unless one of them encloses. -/
def complete? : List Frame → Expr → Option Expr
  | [], expr => some expr
  | frame :: rest, expr =>
    if frame.encloses then none else complete? rest (frame.fill expr)

/-- The nesting of an expression is one more than its count of open frames. -/
def depthLimit : Nat := 200

def push (frame : Frame) (stack : List Frame) : Except SyntaxError (List Frame) :=
  if stack.length + 2 ≤ depthLimit then .ok (frame :: stack) else .error .tooDeep

end Frame

/-- An opened parenthesis has no frame yet, because it must not be empty. -/
inductive Phase where
  | operand
  | called (f : NamedFunction)
  | opened (f : Option NamedFunction)
  | value (expr : Expr)
  deriving DecidableEq

/-- The innermost frame comes first. -/
structure Reader where
  position : Nat
  stack : List Frame
  phase : Phase
  deriving DecidableEq

namespace Reader

def start : Reader :=
  ⟨0, [], .operand⟩

def enclosing : Option NamedFunction → Frame
  | none => .group
  | some f => .call f

def emptyInside : Option NamedFunction → SyntaxError
  | none => .emptyParentheses
  | some f => .emptyCall f

/-- A token starts an operand, or it is a sign before one. -/
def operand (position : Nat) (stack : List Frame) : Token → Except SyntaxError (List Frame × Phase)
  | .number x => .ok (stack, .value (.number x))
  | .pi => .ok (stack, .value (.number Binary64.pi))
  | .answer => .ok (stack, .value .answer)
  | .function f => .ok (stack, .called f)
  | .opening => .ok (stack, .opened none)
  | .operator .sub => (Frame.push .negate stack).map fun stack => (stack, .operand)
  | .operator .add => (Frame.push .keep stack).map fun stack => (stack, .operand)
  | _ => .error (.missingOperand position)

/-- A token continues a value, or it completes frames around the value. -/
def afterValue (position : Nat) (stack : List Frame) (expr : Expr) :
    Token → Except SyntaxError (List Frame × Phase)
  | .factorial => .ok (stack, .value (.factorial expr))
  | .operator op =>
    let settled := Frame.settle op stack expr
    (Frame.push (.operand settled.2 op) settled.1).map fun stack => (stack, .operand)
  | .closing =>
    match Frame.close? stack expr with
    | some (stack, expr) => .ok (stack, .value expr)
    | none => .error (.unopenedParenthesis position)
  | _ => .error (.unexpectedToken position)

def advance (position : Nat) (stack : List Frame) (token : Token) :
    Phase → Except SyntaxError (List Frame × Phase)
  | .operand => operand position stack token
  | .called f =>
    if token = .opening then .ok (stack, .opened (some f)) else .error (.missingParenthesis f)
  | .opened f =>
    if token = .closing then .error (emptyInside f)
    else match Frame.push (enclosing f) stack with
      | .ok stack => operand position stack token
      | .error cause => .error cause
  | .value expr => afterValue position stack expr token

/-- Each step reads one token. -/
def step (reader : Reader) (token : Token) : Except SyntaxError Reader :=
  match advance reader.position reader.stack token reader.phase with
  | .ok (stack, phase) => .ok ⟨reader.position + 1, stack, phase⟩
  | .error cause => .error cause

def run (reader : Reader) : List Token → Except SyntaxError Reader
  | [] => .ok reader
  | token :: rest =>
    match reader.step token with
    | .ok reader => reader.run rest
    | .error cause => .error cause

/-- The tokens end after a value. -/
def finish (reader : Reader) : Except SyntaxError Expr :=
  match reader.phase with
  | .operand => .error (.missingOperand reader.position)
  | .called f => .error (.missingParenthesis f)
  | .opened f =>
    match Frame.push (enclosing f) reader.stack with
    | .ok _ => .error (.missingOperand reader.position)
    | .error cause => .error cause
  | .value expr =>
    match Frame.complete? reader.stack expr with
    | some expr => .ok expr
    | none => .error .unclosedParenthesis

theorem runAppend (reader : Reader) (first second : List Token) :
    reader.run (first ++ second) =
      match reader.run first with
      | .ok reader => reader.run second
      | .error cause => .error cause := by
  induction first generalizing reader with
  | nil => rfl
  | cons token rest tail =>
      simp only [List.cons_append, run]
      cases reader.step token with
      | error cause => rfl
      | ok reader => exact tail reader

end Reader

def tokenLimit : Nat := 1024

/-- The tokens of an expression have exactly one tree. -/
def Expr.ofTokens (tokens : List Token) : Except SyntaxError Expr :=
  if tokens.isEmpty then .error .emptyInput
  else if tokenLimit < tokens.length then .error (.tooLong tokens.length)
  else match Reader.start.run tokens with
    | .ok reader => reader.finish
    | .error cause => .error cause

end Calculator
