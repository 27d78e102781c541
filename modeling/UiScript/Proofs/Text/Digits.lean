/-
Decimal digits and what they stand for. Digits are read from the left, the
value so far times ten and the next digit added; the same number is told by
the digits from the right, each with its power of ten.

# Main statements

* `areDigits_iff`: which texts are digits.
* `valueOf_eq`: the number that digits stand for.
-/
import Mathlib.Data.Nat.Digits.Defs
import UiScript.Decimal.Reading
import UiScript.Proofs.Text.Characters

namespace UiScript.Decimal

/-- Digits are read from the first one on, which counts most, in any base.
Mathlib tells a number by its digits from the last one on. -/
theorem foldl_eq_ofDigits (base : Nat) (values : List Nat) :
    values.foldl (fun n digit => base * n + digit) 0 = Nat.ofDigits base values.reverse := by
  rw [Nat.ofDigits_eq_foldr, List.foldr_reverse]
  congr 1
  funext n digit
  rw [Nat.cast_id, Nat.add_comm]

/-- The number that decimal digits stand for. The reader goes from the left,
and the library counts from the right. -/
theorem valueOf_eq (cs : List Char) :
    valueOf cs = Nat.ofDigits 10 (cs.map digitValue).reverse := by
  rw [← foldl_eq_ofDigits, List.foldl_map, valueOf]

/-- Digits are at least one, and nothing but digits. -/
theorem areDigits_iff {cs : List Char} :
    areDigits cs = true ↔ cs ≠ [] ∧ ∀ c ∈ cs, '0' ≤ c ∧ c ≤ '9' := by
  rw [areDigits, Bool.and_eq_true, List.all_eq_true, Bool.not_eq_true', List.isEmpty_eq_false_iff]
  exact and_congr_right fun _ => forall₂_congr fun _ _ => Text.isDigit_iff

end UiScript.Decimal
