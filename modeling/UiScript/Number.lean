/-
Numbers of a script: whole numbers of 64 bits, and doubles for everything
else.
-/
import UiScript.Decimal.Layout

namespace UiScript

/-- A number of a script. -/
inductive Number where
  | int (value : Int)
  | float (value : Float)
deriving DecidableEq, Inhabited

namespace Number

/-- The whole numbers of 64 bits, from `-2 ^ 63` up to below `2 ^ 63`. -/
def isInt64 (n : Int) : Bool := -9223372036854775808 ≤ n && n < 9223372036854775808

/-- The number as a double, rounded if it has too many digits. -/
def toFloat : Number → Float
  | .int n => Float.ofInt n
  | .float x => x

/-- Up to `2 ^ 53` every whole number is a double. -/
def exactFloatLimit : Float := 9007199254740992.0

/-- The whole number that a number is; a double counts only up to `2 ^ 53` on
either side. -/
def toInt? : Number → Option Int
  | .int n => some n
  | .float x =>
    if x.floor == x && -exactFloatLimit ≤ x && x ≤ exactFloatLimit then some x.toInt64.toInt else none

/-- A number as messages and content show it: never with an exponent. -/
def text : Number → String
  | .int n => toString n
  | .float x => Decimal.Layout.plain.write x

/-- Whether two numbers are equal as numbers of their kind: zeros are, what is
no number never is. -/
def agrees : Number → Number → Bool
  | .int m, .int n => m == n
  | .float x, .float y => x == y
  | _, _ => false

end Number

end UiScript
