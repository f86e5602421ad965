/-
This file holds the causes of a refusal and their wording.
-/

import Calculator.Token.Basic

namespace Calculator

/-- Positions of characters and tokens count from zero. -/
inductive SyntaxError where
  | emptyInput
  | unexpectedCharacter (c : Char) (position : Nat)
  | invalidNumber (text : String)
  | unclosedParenthesis
  | unopenedParenthesis (position : Nat)
  | emptyParentheses
  | missingOperand (position : Nat)
  | missingParenthesis (f : NamedFunction)
  | emptyCall (f : NamedFunction)
  | unexpectedToken (position : Nat)
  | tooDeep
  | tooLong (count : Nat)
  deriving DecidableEq

/-- A function is asked for a value outside its domain. -/
inductive DomainFault where
  | fractionalPower
  | logarithm
  | squareRoot
  | factorial
  | infiniteAngle
  | undefinedTangent
  deriving DecidableEq

inductive MathError where
  | divisionByZero
  | outOfDomain (fault : DomainFault)
  | overflow
  | notFinite
  deriving DecidableEq

inductive Error where
  | syntactic (cause : SyntaxError)
  | mathematical (cause : MathError)
  deriving DecidableEq

def SyntaxError.message : SyntaxError → String
  | .emptyInput => "entrée vide"
  | .unexpectedCharacter c position =>
    "caractère inattendu: '" ++ c.toString ++ "' (position " ++ position.repr ++ ")"
  | .invalidNumber text => "nombre invalide: " ++ text
  | .unclosedParenthesis => "parenthèses non fermées"
  | .unopenedParenthesis position =>
    "parenthèse fermante sans ouvrante (jeton " ++ position.repr ++ ")"
  | .emptyParentheses => "parenthèses vides"
  | .missingOperand position => "opérande manquant (jeton " ++ position.repr ++ ")"
  | .missingParenthesis f => f.name ++ " attend une parenthèse ouvrante"
  | .emptyCall f => "appel vide: " ++ f.name ++ "()"
  | .unexpectedToken position => "jeton inattendu (jeton " ++ position.repr ++ ")"
  | .tooDeep => "expression trop imbriquée"
  | .tooLong count => "expression trop longue (" ++ count.repr ++ " jetons)"

def DomainFault.message : DomainFault → String
  | .fractionalPower => "base négative, exposant non entier"
  | .logarithm => "logarithme d'un non-positif"
  | .squareRoot => "racine d'un négatif"
  | .factorial => "factorielle d'un négatif ou non entier"
  | .infiniteAngle => "angle non fini"
  | .undefinedTangent => "tangente indéfinie"

def MathError.message : MathError → String
  | .divisionByZero => "division par zéro"
  | .outOfDomain fault => "hors domaine: " ++ fault.message
  | .overflow => "dépassement de capacité"
  | .notFinite => "résultat non fini"

def mathMessage : String := "Math Error"

def syntaxMessage : String := "Syntax Error"

/-- The display shows one of two messages and not the cause. -/
def Error.display : Error → String
  | .syntactic _ => syntaxMessage
  | .mathematical _ => mathMessage

end Calculator
