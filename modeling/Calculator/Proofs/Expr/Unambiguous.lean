/-
This file proves that the text of a tree tells the tree but for its groups.
-/

import Calculator.Proofs.Expr.Literal
import Calculator.Proofs.Grammar.Literals
import Calculator.Proofs.Retyping.Enclosure

namespace Calculator

open Lexeme

theorem Operator.symbolInjective : Function.Injective Operator.symbol := by
  intro op other same
  have table (op : Operator) : symbols.lookup op.symbol = some (.operator op) := by
    cases op <;> rfl
  have found := table op
  rw [same, table other] at found
  cases found
  rfl

theorem NamedFunction.nameInjective : Function.Injective NamedFunction.name := by
  intro f other same
  have table (f : NamedFunction) : vocabulary.lookup f.name = some (.function f) := by
    rcases f with (_ | _ | _) | _ | _ | _ | _ <;> decide
  have found := table f
  rw [same, table other] at found
  cases found
  rfl

theorem nameUnique {f other : NamedFunction} {rest restOther : List Char}
    (same : f.name.toList ++ '[' :: rest = other.name.toList ++ '[' :: restOther) :
    f = other ∧ rest = restOther := by
  have plain (f : NamedFunction) : ∀ c ∈ f.name.toList, c != '[' := by
    rcases f with (_ | _ | _) | _ | _ | _ | _ <;> simp [NamedFunction.name]
  obtain ⟨names, _, rests⟩ := runUnique (plain f) (plain other) (by decide) (by decide) same
  exact ⟨NamedFunction.nameInjective (String.toList_inj.mp names), rests⟩

theorem answerApart {f : NamedFunction} {rest restOther : List Char} :
    "Ans".toList ++ rest ≠ f.name.toList ++ restOther := by
  intro same
  rcases f with (_ | _ | _) | _ | _ | _ | _ <;> simp [NamedFunction.name] at same

namespace Expr

/-- This is a tree without groups, and its literals are numbers. -/
inductive Ungrouped : Expr → Prop where
  | number {x : Float} : x.isNaN = false → Ungrouped (.number x)
  | answer : Ungrouped .answer
  | negate {operand : Expr} : Ungrouped operand → Ungrouped (.negate operand)
  | binary (op : Operator) {left right : Expr} : Ungrouped left → Ungrouped right →
      Ungrouped (.binary op left right)
  | call (f : NamedFunction) {argument : Expr} : Ungrouped argument →
      Ungrouped (.call f argument)
  | factorial {operand : Expr} : Ungrouped operand → Ungrouped (.factorial operand)

theorem ungroupedWithout (expr : Expr) (numbers : ∀ x ∈ expr.literals, x.isNaN = false) :
    Ungrouped expr.withoutGroups := by
  induction expr with
  | number x => exact .number (numbers x (by simp [literals]))
  | answer => exact .answer
  | negate operand inductionHypothesis => exact .negate (inductionHypothesis numbers)
  | binary op left right leftHypothesis rightHypothesis =>
      exact .binary op (leftHypothesis fun x member => numbers x (List.mem_append_left _ member))
        (rightHypothesis fun x member => numbers x (List.mem_append_right _ member))
  | call f argument inductionHypothesis => exact .call f (inductionHypothesis numbers)
  | factorial operand inductionHypothesis => exact .factorial (inductionHypothesis numbers)
  | group inside inductionHypothesis => exact inductionHypothesis numbers

theorem spellingWithoutGroups (expr : Expr) : expr.withoutGroups.spelling = expr.spelling := by
  induction expr with
  | number _ | answer => rfl
  | negate operand inductionHypothesis | factorial operand inductionHypothesis
  | call f operand inductionHypothesis | group operand inductionHypothesis =>
      simp only [withoutGroups, spelling, inductionHypothesis]
  | binary op left right leftHypothesis rightHypothesis =>
      simp only [withoutGroups, spelling, leftHypothesis, rightHypothesis]

/-- Every operation stands in parentheses, and every other tree starts with its own word. -/
inductive Kind where
  | literal
  | word
  | operation
  deriving DecidableEq

def kind : Expr → Kind
  | .number _ => .literal
  | .answer | .call _ _ => .word
  | .negate _ | .binary _ _ _ | .factorial _ => .operation
  | .group inside => inside.kind

def kindOf (c : Char) : Kind :=
  if inLiteral c then .literal else if c = '(' then .operation else .word

section

variable {a b : Expr} {c d : Char} {rest restOther : List Char}

/-- The first character of a text tells the kind of its tree. -/
theorem Ungrouped.head (ungrouped : Ungrouped a) (rest : List Char) :
    ∃ c ∈ (a.spelling ++ rest).head?, kindOf c = a.kind := by
  have parenthesis : kindOf '(' = .operation := by decide
  cases ungrouped with
  | @number x number =>
      have inside := spellLiteral number
      obtain ⟨first, after, spelled, _, _⟩ := spellCharacters number
      rw [spelling]
      cases text : spellNumber x with
      | nil => simp [text, DisplayMode.signed] at spelled
      | cons c others => exact ⟨c, rfl, if_pos (inside c (text ▸ .head _))⟩
  | answer => exact ⟨'A', by simp [spelling], by decide⟩
  | negate _ | binary _ _ _ | factorial _ => exact ⟨'(', rfl, parenthesis⟩
  | call f _ =>
      rcases f with (_ | _ | _) | _ | _ | _ | _ <;>
        exact ⟨_, rfl, by simp only [kind]; decide⟩

theorem kindUnique (first : Ungrouped a) (second : Ungrouped b)
    (same : a.spelling ++ rest = b.spelling ++ restOther) : a.kind = b.kind := by
  obtain ⟨c, member, kinds⟩ := first.head rest
  obtain ⟨d, memberOther, kindsOther⟩ := second.head restOther
  rw [same] at member
  rw [← kinds, ← kindsOther, Option.mem_unique member memberOther]

theorem Ungrouped.ofLiteral (ungrouped : Ungrouped a) (starts : inLiteral c)
    (same : a.spelling ++ rest = c :: restOther) : ∃ x, a = .number x ∧ x.isNaN = false := by
  obtain ⟨first, member, kinds⟩ := ungrouped.head rest
  rw [same] at member
  rw [← Option.some.inj member, kindOf, if_pos starts] at kinds
  cases ungrouped with
  | number number => exact ⟨_, rfl, number⟩
  | answer | call _ _ | negate _ | binary _ _ _ | factorial _ => cases kinds

theorem negateText (operand : Expr) (rest : List Char) :
    (negate operand).spelling ++ rest = '(' :: '-' :: (operand.spelling ++ ')' :: rest) := by
  simp [spelling]

theorem binaryText (op : Operator) (left right : Expr) (rest : List Char) :
    (binary op left right).spelling ++ rest =
      '(' :: (left.spelling ++ ' ' :: op.symbol :: ' ' :: (right.spelling ++ ')' :: rest)) := by
  simp [spelling]

theorem callText (f : NamedFunction) (argument : Expr) (rest : List Char) :
    (call f argument).spelling ++ rest =
      f.name.toList ++ '[' :: (argument.spelling ++ ']' :: rest) := by
  simp [spelling]

theorem factorialText (operand : Expr) (rest : List Char) :
    (factorial operand).spelling ++ rest = '(' :: (operand.spelling ++ '!' :: ')' :: rest) := by
  simp [spelling]

/-- The sign of a negation is the sign of a literal only if a literal follows it, and then one
character ends both. -/
theorem negationApart (first : Ungrouped a) (second : Ungrouped b) (stop : inLiteral c = false)
    (apart : ')' ≠ c) : '-' :: (a.spelling ++ ')' :: rest) ≠ b.spelling ++ c :: restOther := by
  intro same
  have sign : inLiteral '-' := by decide
  obtain ⟨y, rfl, number⟩ := second.ofLiteral sign same.symm
  obtain ⟨digit, others, spelled, plain, inside⟩ := spellCharacters number
  rw [spelling, spelled] at same
  cases minus : Binary64.negative y with
  | false =>
      rw [minus] at same
      exact plain (List.cons.inj same).1.symm
  | true =>
      rw [minus] at same
      have texts : a.spelling ++ ')' :: rest = digit :: others ++ c :: restOther :=
        (List.cons.inj same).2
      obtain ⟨x, rfl, numberOther⟩ := first.ofLiteral (inside digit (.head _)) texts
      have ends := runUnique (spellLiteral numberOther) inside (by decide) stop texts
      exact apart ends.2.1

/-- The text of a tree before a character that is in no literal tells the tree and its end. -/
def Readable (a : Expr) : Prop :=
  ∀ {b : Expr} {c d : Char} {rest restOther : List Char}, Ungrouped b → inLiteral c = false →
    inLiteral d = false → a.spelling ++ c :: rest = b.spelling ++ d :: restOther →
    a = b ∧ c = d ∧ rest = restOther

theorem readableNumber {x : Float} (number : x.isNaN = false) : Readable (.number x) := by
  intro b c d rest restOther second stop stopOther same
  have kinds := kindUnique (.number number) second same
  cases second with
  | number numberOther =>
      obtain ⟨texts, ends⟩ :=
        runUnique (spellLiteral number) (spellLiteral numberOther) stop stopOther same
      exact ⟨congrArg _ (spellInjective number numberOther texts), ends⟩
  | answer | call _ _ | negate _ | binary _ _ _ | factorial _ => cases kinds

theorem readableAnswer : Readable .answer := by
  intro b c d rest restOther second stop stopOther same
  have kinds := kindUnique .answer second same
  cases second with
  | answer => exact ⟨rfl, List.cons.inj (List.append_cancel_left same)⟩
  | call f _ =>
      rw [callText] at same
      exact absurd same answerApart
  | number _ | negate _ | binary _ _ _ | factorial _ => cases kinds

namespace Readable

theorem call (f : NamedFunction) (ungrouped : Ungrouped a) (readable : Readable a) :
    Readable (.call f a) := by
  intro b c d rest restOther second stop stopOther same
  have kinds := kindUnique (.call f ungrouped) second same
  rw [callText] at same
  cases second with
  | answer => exact absurd same.symm answerApart
  | call g argument =>
      rw [callText] at same
      obtain ⟨rfl, inside⟩ := nameUnique same
      obtain ⟨rfl, _, ends⟩ := readable argument (by decide) (by decide) inside
      exact ⟨rfl, List.cons.inj ends⟩
  | number _ | negate _ | binary _ _ _ | factorial _ => cases kinds

theorem negate (ungrouped : Ungrouped a) (readable : Readable a) : Readable (.negate a) := by
  intro b c d rest restOther second stop stopOther same
  have kinds := kindUnique (.negate ungrouped) second same
  rw [negateText] at same
  -- The first operand of another operation may be a literal with a sign of its own.
  cases second with
  | negate operand =>
      rw [negateText] at same
      have inside := (List.cons.inj (List.cons.inj same).2).2
      obtain ⟨rfl, _, ends⟩ := readable operand (by decide) (by decide) inside
      exact ⟨rfl, List.cons.inj ends⟩
  | binary op left _ =>
      rw [binaryText] at same
      exact absurd (List.cons.inj same).2 (negationApart ungrouped left (by decide) (by decide))
  | factorial operand =>
      rw [factorialText] at same
      exact absurd (List.cons.inj same).2 (negationApart ungrouped operand (by decide) (by decide))
  | number _ | answer | call _ _ => cases kinds

theorem binary (op : Operator) {left right : Expr} (ungrouped : Ungrouped left)
    (ungroupedRight : Ungrouped right) (readable : Readable left) (readableRight : Readable right) :
    Readable (.binary op left right) := by
  intro b c d rest restOther second stop stopOther same
  have kinds := kindUnique (.binary op ungrouped ungroupedRight) second same
  rw [binaryText] at same
  cases second with
  | negate operand =>
      rw [negateText] at same
      exact absurd (List.cons.inj same).2.symm
        (negationApart operand ungrouped (by decide) (by decide))
  | binary other leftOther rightOther =>
      rw [binaryText] at same
      obtain ⟨rfl, _, operations⟩ :=
        readable leftOther (by decide) (by decide) (List.cons.inj same).2
      obtain ⟨symbols, after⟩ := List.cons.inj operations
      obtain rfl := Operator.symbolInjective symbols
      obtain ⟨rfl, _, ends⟩ :=
        readableRight rightOther (by decide) (by decide) (List.cons.inj after).2
      exact ⟨rfl, List.cons.inj ends⟩
  | factorial operand =>
      -- The character after the first operand tells the operations apart.
      rw [factorialText] at same
      obtain ⟨_, marks, _⟩ := readable operand (by decide) (by decide) (List.cons.inj same).2
      exact absurd marks (by decide)
  | number _ | answer | call _ _ => cases kinds

theorem factorial (ungrouped : Ungrouped a) (readable : Readable a) : Readable (.factorial a) := by
  intro b c d rest restOther second stop stopOther same
  have kinds := kindUnique (.factorial ungrouped) second same
  rw [factorialText] at same
  cases second with
  | negate operand =>
      rw [negateText] at same
      exact absurd (List.cons.inj same).2.symm
        (negationApart operand ungrouped (by decide) (by decide))
  | binary op left _ =>
      rw [binaryText] at same
      obtain ⟨_, marks, _⟩ := readable left (by decide) (by decide) (List.cons.inj same).2
      exact absurd marks (by decide)
  | factorial operand =>
      rw [factorialText] at same
      obtain ⟨rfl, _, ends⟩ := readable operand (by decide) (by decide) (List.cons.inj same).2
      exact ⟨rfl, List.cons.inj (List.cons.inj ends).2⟩
  | number _ | answer | call _ _ => cases kinds

end Readable

theorem Ungrouped.readable (ungrouped : Ungrouped a) : Readable a := by
  induction ungrouped with
  | number number => exact readableNumber number
  | answer => exact readableAnswer
  | negate operand inductionHypothesis => exact inductionHypothesis.negate operand
  | binary op left right leftHypothesis rightHypothesis =>
      exact leftHypothesis.binary op left right rightHypothesis
  | call f argument inductionHypothesis => exact inductionHypothesis.call f argument
  | factorial operand inductionHypothesis => exact inductionHypothesis.factorial operand

/-- Two trees whose literals are numbers have one text exactly if they are the same tree without
their groups, down to the bits of each literal. -/
theorem textUnambiguous {a b : Expr} (numbers : ∀ x ∈ a.literals, x.isNaN = false)
    (numbersOther : ∀ x ∈ b.literals, x.isNaN = false) :
    a.text = b.text ↔ a.withoutGroups = b.withoutGroups := by
  have texts : a.text = b.text ↔ a.withoutGroups.spelling = b.withoutGroups.spelling := by
    rw [text, text, String.ofList_inj, spellingWithoutGroups, spellingWithoutGroups]
  rw [texts]
  constructor
  · intro same
    have ended : a.withoutGroups.spelling ++ [' '] = b.withoutGroups.spelling ++ [' '] := by
      rw [same]
    have first := ungroupedWithout a numbers
    have second := ungroupedWithout b numbersOther
    exact (first.readable second (by decide) (by decide) ended).1
  · intro same
    rw [same]

/-- The factorial of a negative literal starts as a negation does. -/
theorem textUnambiguousFactorial :
    (factorial (number (-5))).text = "(-5!)" ∧ (negate (number 5)).text = "(-5)" ∧
    (∀ x ∈ (factorial (number (-5))).literals, x.isNaN = false) ∧
    (∀ x ∈ (factorial (group (number (-5)))).literals, x.isNaN = false) ∧
    ((factorial (number (-5))).text = (factorial (group (number (-5)))).text ↔
      (factorial (number (-5))).withoutGroups = (factorial (group (number (-5)))).withoutGroups) :=
  have numbers : ∀ x ∈ (factorial (number (-5))).literals, x.isNaN = false := by decide
  have numbersOther : ∀ x ∈ (factorial (group (number (-5)))).literals, x.isNaN = false := by decide
  ⟨by decide +kernel, by decide +kernel, numbers, numbersOther,
    textUnambiguous numbers numbersOther⟩

end

end Expr

end Calculator
