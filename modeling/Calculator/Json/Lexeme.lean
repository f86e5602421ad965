/-
This file cuts a JSON text into its marks and scalars.
-/

import Calculator.Json.Basic

namespace Calculator.Json

def isBlank (c : Char) : Bool :=
  c == ' ' || c == '\n' || c == '\r' || c == '\t'

def hexDigit? (c : Char) : Option Nat :=
  if c.isDigit then some (c.toNat - '0'.toNat)
  else if 'a' ≤ c && c ≤ 'f' then some (c.toNat - 'a'.toNat + 10)
  else if 'A' ≤ c && c ≤ 'F' then some (c.toNat - 'A'.toNat + 10)
  else none

/-- Four digits name a code unit. -/
def codeUnit? (a b c d : Char) : Option Nat := do
  let a ← hexDigit? a
  let b ← hexDigit? b
  let c ← hexDigit? c
  let d ← hexDigit? d
  return ((a * 16 + b) * 16 + c) * 16 + d

def escape? : Char → Option Char
  | '"' => some '"'
  | '\\' => some '\\'
  | '/' => some '/'
  | 'b' => some '\x08'
  | 'f' => some '\x0C'
  | 'n' => some '\n'
  | 'r' => some '\r'
  | 't' => some '\t'
  | _ => none

/-- The code points of a string end at its closing quote, and a control character must be
escaped. -/
def codePoints? : List Char → Option (List Nat × List Char)
  | [] => none
  | '"' :: rest => some ([], rest)
  | '\\' :: 'u' :: a :: b :: c :: d :: rest =>
    match codeUnit? a b c d, codePoints? rest with
    | some unit, some (points, after) => some (unit :: points, after)
    | _, _ => none
  | '\\' :: c :: rest =>
    match escape? c, codePoints? rest with
    | some c, some (points, after) => some (c.toNat :: points, after)
    | _, _ => none
  | c :: rest =>
    if c.toNat < 0x20 then none
    else match codePoints? rest with
      | some (points, after) => some (c.toNat :: points, after)
      | none => none

def isHighSurrogate (point : Nat) : Bool :=
  0xD800 ≤ point && point < 0xDC00

def isLowSurrogate (point : Nat) : Bool :=
  0xDC00 ≤ point && point < 0xE000

/-- A high surrogate and a low one are one character, and neither stands alone. -/
def text? : List Nat → Option (List Char)
  | [] => some []
  | [point] =>
    if isHighSurrogate point || isLowSurrogate point then none else some [Char.ofNat point]
  | point :: next :: rest =>
    if isHighSurrogate point then
      if isLowSurrogate next then
        (text? rest).map (Char.ofNat (0x10000 + (point - 0xD800) * 0x400 + (next - 0xDC00)) :: ·)
      else none
    else if isLowSurrogate point then none
    else (text? (next :: rest)).map (Char.ofNat point :: ·)

def isNumeric (c : Char) : Bool :=
  c.isDigit || c == '-' || c == '+' || c == '.' || c == 'e' || c == 'E'

def isPower : List Char → Bool
  | [] => true
  | mark :: rest =>
    let digits := match rest with
      | '+' :: digits | '-' :: digits => digits
      | digits => digits
    (mark == 'e' || mark == 'E') && !digits.isEmpty && digits.all Char.isDigit

/-- An integer part has no superfluous zero, and a point has digits after it. -/
def isNumber (chars : List Char) : Bool :=
  let unsigned := match chars with
    | '-' :: rest => rest
    | rest => rest
  let whole := unsigned.takeWhile Char.isDigit
  let plain := !whole.isEmpty && (whole.head? != some '0' || whole.length == 1)
  plain && match unsigned.dropWhile Char.isDigit with
    | '.' :: rest =>
      !(rest.takeWhile Char.isDigit).isEmpty && isPower (rest.dropWhile Char.isDigit)
    | rest => isPower rest

def literal? (letters : List Char) : Option Json :=
  if letters = "null".toList then some .null
  else if letters = "true".toList then some (.boolean true)
  else if letters = "false".toList then some (.boolean false)
  else none

def mark? : Char → Option Lexeme
  | '[' => some .beginArray
  | ']' => some .endArray
  | '{' => some .beginObject
  | '}' => some .endObject
  | ',' => some .comma
  | ':' => some .colon
  | _ => none

/-- A number and a literal take as many characters as they can, because a mark or a blank must
follow them. -/
def scalar? (first : Char) (rest : List Char) : Option (Json × List Char) :=
  if first = '"' then
    (codePoints? rest).map fun (points, after) =>
      (.string ((text? points).map String.ofList), after)
  else if isNumeric first then
    let chars := first :: rest.takeWhile isNumeric
    if isNumber chars then some (.number (String.ofList chars), rest.dropWhile isNumeric) else none
  else
    (literal? (first :: rest.takeWhile Char.isAlpha)).map fun value =>
      (value, rest.dropWhile Char.isAlpha)

theorem codePointsLength {chars after : List Char} {points : List Nat}
    (read : codePoints? chars = some (points, after)) : after.length ≤ chars.length := by
  fun_induction codePoints? chars generalizing points after <;> simp_all <;> omega

theorem dropLength (test : Char → Bool) (chars : List Char) :
    (chars.dropWhile test).length ≤ chars.length :=
  (List.dropWhile_sublist _).length_le

/-- Every scalar takes its first character. -/
theorem scalarLength {first : Char} {rest after : List Char} {value : Json}
    (read : scalar? first rest = some (value, after)) : after.length ≤ rest.length := by
  unfold scalar? at read
  split at read
  · obtain ⟨⟨points, tail⟩, inner, same⟩ := Option.map_eq_some_iff.mp read
    simp only [Prod.mk.injEq] at same
    rw [← same.2]
    exact codePointsLength inner
  · split at read
    · simp only at read
      split at read
      · simp only [Option.some.injEq, Prod.mk.injEq] at read
        rw [← read.2]
        exact dropLength isNumeric rest
      · exact absurd read (by simp)
    · obtain ⟨literal, _, same⟩ := Option.map_eq_some_iff.mp read
      simp only [Prod.mk.injEq] at same
      rw [← same.2]
      exact dropLength Char.isAlpha rest

/-- The blanks between the lexemes are dropped. -/
def lexemes? (chars : List Char) : Option (List Lexeme) :=
  match chars with
  | [] => some []
  | first :: rest =>
    if isBlank first then lexemes? rest
    else match mark? first with
      | some mark => (lexemes? rest).map (mark :: ·)
      | none =>
        match _ : scalar? first rest with
        | some (value, after) => (lexemes? after).map (.scalar value :: ·)
        | none => none
termination_by chars.length
decreasing_by
  · simp
  · simp
  · have := scalarLength ‹scalar? _ _ = _›
    simp only [List.length_cons]
    omega

end Calculator.Json
