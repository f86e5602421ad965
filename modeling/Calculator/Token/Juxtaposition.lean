/-
This file makes the products between adjacent values explicit.
-/

import Calculator.Token.Basic

namespace Calculator.Token

/-- A value may end with this token. -/
def endsValue : Token → Bool
  | .number _ | .pi | .answer | .factorial | .closing => true
  | _ => false

/-- A value without a sign may start with this token. -/
def startsValue : Token → Bool
  | .number _ | .pi | .answer | .function _ | .opening => true
  | _ => false

def isNumber : Token → Bool
  | .number _ => true
  | _ => false

/-- Two adjacent values are a product, but two adjacent numbers are not. -/
def juxtaposed (left right : Token) : Bool :=
  left.endsValue && right.startsValue && !(left.isNumber && right.isNumber)

def productsAfter (previous : Token) : List Token → List Token
  | [] => []
  | token :: rest =>
    if juxtaposed previous token then
      .operator .mul :: token :: productsAfter token rest
    else token :: productsAfter token rest

/-- Each product between adjacent values gets its sign. -/
def withProducts : List Token → List Token
  | [] => []
  | token :: rest => token :: productsAfter token rest

end Calculator.Token
