/-
The classes of ASCII characters, told by the stretches of the alphabet that
they are. The library has them as comparisons of code points that compute.

# Main statements

* `isUpper_iff`, `isLower_iff`, `isAlpha_iff`: which characters are letters.
* `isDigit_iff`: which characters are digits.
-/

namespace UiScript.Text

/-- The capital letters are those from `A` to `Z`. -/
theorem isUpper_iff {c : Char} : c.isUpper = true ↔ 'A' ≤ c ∧ c ≤ 'Z' :=
  decide_eq_true_iff

theorem isLower_iff {c : Char} : c.isLower = true ↔ 'a' ≤ c ∧ c ≤ 'z' := by
  show (decide ('a' ≤ c) && decide (c ≤ 'z')) = true ↔ 'a' ≤ c ∧ c ≤ 'z'
  rw [Bool.and_eq_true, decide_eq_true_iff, decide_eq_true_iff]

/-- A letter is a capital one or a small one. -/
theorem isAlpha_iff {c : Char} :
    c.isAlpha = true ↔ ('A' ≤ c ∧ c ≤ 'Z') ∨ ('a' ≤ c ∧ c ≤ 'z') := by
  show (c.isUpper || c.isLower) = true ↔ _
  rw [Bool.or_eq_true, isUpper_iff, isLower_iff]

/-- The digits are the ten characters from `0` to `9`. -/
theorem isDigit_iff {c : Char} : c.isDigit = true ↔ '0' ≤ c ∧ c ≤ '9' := by
  show (decide ('0' ≤ c) && decide (c ≤ '9')) = true ↔ '0' ≤ c ∧ c ≤ '9'
  rw [Bool.and_eq_true, decide_eq_true_iff, decide_eq_true_iff]

end UiScript.Text
