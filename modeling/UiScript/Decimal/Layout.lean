/-
How doubles are written. The digits are always the shortest that read back
(`Decimal.shortest`); a `Layout` holds everything else that one way of
writing decides, and each way of writing is one record.
-/
import UiScript.Decimal.Shortest

namespace UiScript

-- ========================================================= taking apart

/-- A double, taken apart. -/
inductive FloatParts where
  | nan
  | infinity (negative : Bool)
  | zero (negative : Bool)
  | finite (negative : Bool) (magnitude : Decimal.Binary)
deriving DecidableEq

/-- The parts of the double with the given 64 bits: sign, eleven bits of
exponent, 52 of fraction. -/
def FloatParts.ofBits (bits : Nat) : FloatParts :=
  let negative := Nat.pow 2 63 ≤ bits
  let exponent : Nat := bits / Nat.pow 2 52 % Nat.pow 2 11
  let fraction := bits % Nat.pow 2 52
  if exponent = 2047 then if fraction = 0 then .infinity negative else .nan
  else if exponent = 0 then
    if fraction = 0 then .zero negative else .finite negative ⟨fraction, -1074, false⟩
  else .finite negative ⟨Nat.pow 2 52 + fraction, (exponent : Int) - 1075, fraction = 0 && exponent ≠ 1⟩

/-- The parts of a double. -/
def FloatParts.ofFloat (x : Float) : FloatParts := .ofBits x.toBits.toNat

namespace Decimal

-- ============================================================== layouts

/-- One way to write doubles. -/
structure Layout where
  /-- Which of two equally near shortest decimals is written. -/
  tie : Tie
  /-- Whether a number whose leading digit has this place is written without an exponent. -/
  positional : Int → Bool
  /-- Whether `.0` follows an integer that is written without an exponent. -/
  keepsPoint : Bool
  /-- What stands before an exponent that is not negative. -/
  exponentSign : String

namespace Layout

/-- Never an exponent, and a point only before a fraction. -/
def plain : Layout := ⟨.up, fun _ => true, false, ""⟩

/-- An exponent below 1e-4 and from 1e16 on; always a point or an exponent. -/
def debugging : Layout := ⟨.up, fun place => -4 ≤ place && place < 16, true, ""⟩

/-- An exponent, with its sign, below 1e-5 and from 1e16 on; always a point or
an exponent. -/
def json : Layout := ⟨.toEven, fun place => -5 ≤ place && place < 16, true, "+"⟩

-- ============================================================== writing

/-- So many zeros. -/
def zeros (n : Nat) : String := "".pushn '0' n

/-- The digits without an exponent. -/
def writePositional (layout : Layout) (digits : List Char) (exponent : Int) : String :=
  if 0 ≤ exponent then
    String.ofList digits ++ zeros exponent.toNat ++ if layout.keepsPoint then ".0" else ""
  else
    let fraction := (-exponent).toNat
    if fraction < digits.length then
      String.ofList (digits.take (digits.length - fraction)) ++ "."
        ++ String.ofList (digits.drop (digits.length - fraction))
    else "0." ++ zeros (fraction - digits.length) ++ String.ofList digits

/-- The digits with a point after the first one, and the place of that one as
the exponent. -/
def writeScientific (layout : Layout) (digits : List Char) (place : Int) : String :=
  let fraction := digits.drop 1
  let sign := if place < 0 then "-" else layout.exponentSign
  String.ofList (digits.take 1) ++ (if fraction.isEmpty then "" else "." ++ String.ofList fraction)
    ++ "e" ++ sign ++ toString place.natAbs

/-- A positive decimal. -/
def writeDecimal (layout : Layout) (d : Decimal) : String :=
  let digits := Nat.toDigits 10 d.coefficient
  let place := d.exponent + digits.length - 1
  if layout.positional place then layout.writePositional digits d.exponent
  else layout.writeScientific digits place

/-- A double, taken apart. -/
def writeParts (layout : Layout) : FloatParts → String
  | .nan => "NaN"
  | .infinity negative => if negative then "-inf" else "inf"
  | .zero negative => (if negative then "-0" else "0") ++ if layout.keepsPoint then ".0" else ""
  | .finite negative magnitude =>
    (if negative then "-" else "") ++ layout.writeDecimal (shortest layout.tie magnitude)

/-- A double as text. -/
def write (layout : Layout) (x : Float) : String := layout.writeParts (.ofFloat x)

end Layout

end Decimal

end UiScript
