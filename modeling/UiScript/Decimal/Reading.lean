/-
Reading decimal numerals as doubles: an optional minus sign, digits, an
optional fraction and an optional exponent. The double nearest to the
decimal is taken. A numeral whose leading digit stands far outside the
range of the doubles is decided by its place alone, so an exponent of any
size costs nothing.
-/
import UiScript.Decimal.Shortest

namespace UiScript.Decimal

-- ================================================================ digits

/-- The value of a digit. -/
def digitValue (c : Char) : Nat := c.toNat - '0'.toNat

/-- The value of digits read from the left. -/
def valueOf (digits : List Char) : Nat := digits.foldl (fun n c => 10 * n + digitValue c) 0

/-- Whether there are digits, and nothing else. -/
def areDigits (cs : List Char) : Bool := !cs.isEmpty && cs.all Char.isDigit

-- ======================================================= nearest double

/-- The double nearest to a decimal; 1e310 is above every finite double,
1e-330 rounds to zero. -/
def nearest (d : Decimal) : Float :=
  let place := d.exponent + (Nat.toDigits 10 d.coefficient).length
  if d.coefficient = 0 then 0.0
  else if 310 < place then 1.0 / 0.0
  else if place < -330 then 0.0
  else Float.ofScientific d.coefficient (d.exponent < 0) d.exponent.natAbs

-- ============================================================== reading

/-- The exponent that stands after the mark `e`: an optional sign and digits. -/
def readExponent? : List Char → Option Int
  | '-' :: digits => if areDigits digits then some (-(valueOf digits : Int)) else none
  | '+' :: digits => if areDigits digits then some (valueOf digits) else none
  | digits => if areDigits digits then some (valueOf digits) else none

/-- The decimal that a numeral without a sign stands for. -/
def readUnsigned? (cs : List Char) : Option Decimal :=
  let (mantissa, exponentPart) := cs.span fun c => c ≠ 'e' && c ≠ 'E'
  let (whole, fractionPart) := mantissa.span (· ≠ '.')
  let exponent? := match exponentPart with
    | [] => some 0
    | _ :: rest => readExponent? rest
  let fraction? := match fractionPart with
    | [] => some []
    | _ :: rest => if areDigits rest then some rest else none
  match areDigits whole, fraction?, exponent? with
  | true, some fraction, some exponent =>
    some ⟨valueOf (whole ++ fraction), exponent - fraction.length⟩
  | _, _, _ => none

/-- The double that a numeral stands for. -/
def readFloat? : List Char → Option Float
  | '-' :: cs => (readUnsigned? cs).map fun d => -(nearest d)
  | cs => (readUnsigned? cs).map nearest

end UiScript.Decimal
