/-
Numerals: an optional minus sign, digits, an optional fraction and an
optional exponent, with single underscores allowed between digits. A point
starts a fraction, and an `e` an exponent, only if a digit follows (for the
exponent after an optional sign); otherwise the numeral ends before it.

# Main statements

* `split_eq` — the parts of a numeral and what follows it make up the input.
-/
import UiScript.Decimal.Reading
import UiScript.Number

namespace UiScript.Token

/-- The parts of a numeral, as they are written. -/
structure Numeral where
  /-- The sign, if there is one, and the digits before any point. -/
  whole : List Char
  /-- The point and the digits after it, or nothing. -/
  fraction : List Char
  /-- The mark `e`, a sign if there is one, and digits; or nothing. -/
  exponent : List Char
deriving DecidableEq

namespace Numeral

-- ============================================================= splitting

/-- Whether a digit comes next. -/
def startsWithDigit : List Char → Bool
  | [] => false
  | c :: _ => c.isDigit

/-- Digits, and underscores that a digit follows; `run` is passed, in reverse. -/
def splitDigitsFrom (run : List Char) : List Char → List Char × List Char
  | [] => (run.reverse, [])
  | c :: cs =>
    if c.isDigit || (c == '_' && startsWithDigit cs) then splitDigitsFrom (c :: run) cs
    else (run.reverse, c :: cs)

/-- The digits at the front, and what follows them. -/
def splitDigits (cs : List Char) : List Char × List Char := splitDigitsFrom [] cs

/-- The minus sign at the front, and what follows it. -/
def splitSign : List Char → List Char × List Char
  | '-' :: cs => (['-'], cs)
  | cs => ([], cs)

/-- The fraction at the front, and what follows it. -/
def splitFraction : List Char → List Char × List Char
  | '.' :: cs =>
    if startsWithDigit cs then ('.' :: (splitDigits cs).1, (splitDigits cs).2) else ([], '.' :: cs)
  | cs => ([], cs)

/-- The exponent at the front, and what follows it. -/
def splitExponent : List Char → List Char × List Char
  | [] => ([], [])
  | [c] => ([], [c])
  | c :: d :: cs =>
    if c = 'e' ∨ c = 'E' then
      if (d = '+' ∨ d = '-') ∧ startsWithDigit cs then
        (c :: d :: (splitDigits cs).1, (splitDigits cs).2)
      else if d.isDigit then (c :: (splitDigits (d :: cs)).1, (splitDigits (d :: cs)).2)
      else ([], c :: d :: cs)
    else ([], c :: d :: cs)

/-- The numeral at the front, and what follows it. -/
def split (cs : List Char) : Numeral × List Char :=
  let (sign, afterSign) := splitSign cs
  let (digits, afterDigits) := splitDigits afterSign
  let (fraction, afterFraction) := splitFraction afterDigits
  let (exponent, rest) := splitExponent afterFraction
  (⟨sign ++ digits, fraction, exponent⟩, rest)

/-- A numeral as it is written. -/
def text (n : Numeral) : List Char := n.whole ++ n.fraction ++ n.exponent

-- ================================================================= value

/-- Whether a numeral has neither fraction nor exponent. -/
def isWhole (n : Numeral) : Bool := n.fraction.isEmpty && n.exponent.isEmpty

/-- The whole number that a sign and digits stand for. -/
def wholeValue : List Char → Int
  | '-' :: digits => -(Decimal.valueOf digits : Int)
  | digits => Decimal.valueOf digits

/-- What is not a number. -/
def notANumber : Float := 0.0 / 0.0

/-- The number that a numeral stands for: a whole one of 64 bits, or else the
nearest double. -/
def value (n : Numeral) : Number :=
  let written := n.text.filter (· != '_')
  if n.isWhole && Number.isInt64 (wholeValue written) then .int (wholeValue written)
  else .float ((Decimal.readFloat? written).getD notANumber)

-- ================================================================== laws

theorem splitDigitsFrom_eq (run cs : List Char) :
    (splitDigitsFrom run cs).1 ++ (splitDigitsFrom run cs).2 = run.reverse ++ cs := by
  fun_induction splitDigitsFrom run cs with
  | case1 => rfl
  | case2 run c cs _ ih => simpa using ih
  | case3 => rfl

theorem splitDigits_eq (cs : List Char) : (splitDigits cs).1 ++ (splitDigits cs).2 = cs := by
  simpa [splitDigits] using splitDigitsFrom_eq [] cs

theorem splitSign_eq (cs : List Char) : (splitSign cs).1 ++ (splitSign cs).2 = cs := by
  fun_cases splitSign cs <;> rfl

theorem splitFraction_eq (cs : List Char) : (splitFraction cs).1 ++ (splitFraction cs).2 = cs := by
  fun_cases splitFraction cs <;> simp [*, splitDigits_eq]

theorem splitExponent_eq (cs : List Char) : (splitExponent cs).1 ++ (splitExponent cs).2 = cs := by
  fun_cases splitExponent cs <;> simp [*, splitDigits_eq]

/-- The parts of a numeral and what follows it make up the input. -/
theorem split_eq (cs : List Char) : (split cs).1.text ++ (split cs).2 = cs := by
  simp only [split, text, List.append_assoc]
  rw [splitExponent_eq, splitFraction_eq, splitDigits_eq, splitSign_eq]

/-- A numeral that starts with a digit, or with a sign, is not empty. -/
theorem text_ne_nil {c : Char} {cs : List Char} (h : c.isDigit = true ∨ c = '-') :
    (split (c :: cs)).1.text ≠ [] := by
  rcases h with h | rfl
  · have hc : c ≠ '-' := by
      rintro rfl
      exact absurd h (by decide)
    have hsign : splitSign (c :: cs) = ([], c :: cs) := by
      unfold splitSign
      split
      · next heq => exact absurd (List.cons.inj heq).1 hc
      · rfl
    have hdigits : (splitDigits (c :: cs)).1 ≠ [] := by
      intro hnil
      have hall := splitDigitsFrom_eq [c] cs
      rw [splitDigits, splitDigitsFrom, if_pos (by simp [h])] at hnil
      have hlen : 1 ≤ (splitDigitsFrom [c] cs).1.length := by
        have mono : ∀ run ds : List Char, run.length ≤ (splitDigitsFrom run ds).1.length := by
          intro run ds
          fun_induction splitDigitsFrom run ds with
          | case1 => simp
          | case2 run d ds _ ih => exact Nat.le_trans (by simp) ih
          | case3 => simp
        exact mono [c] cs
      rw [hnil] at hlen
      cases hlen
    simp [split, text, hsign, hdigits]
  · simp [split, text, splitSign]

end Numeral

end UiScript.Token
