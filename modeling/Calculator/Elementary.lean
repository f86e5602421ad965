/-
This file holds the elementary functions that the platform provides.
-/

namespace Calculator

/-- The values of these functions are known only as far as the platform documents them. -/
class Elementary where
  sin : Float → Float
  cos : Float → Float
  tan : Float → Float
  log10 : Float → Float
  ln : Float → Float
  pow : Float → Float → Float

instance : Elementary where
  sin := Float.sin
  cos := Float.cos
  tan := Float.tan
  log10 := Float.log10
  ln := Float.log
  pow := Float.pow

end Calculator
