/-
Comments are no part of a program. A scan that leaves them out comes to what
a scan that keeps them comes to, less the comments; and reading does not see
them, wherever they stand: the same program is read, with the same spans, or
the same failure stands at the same place.

A cursor hides comments at every move and at every look it takes, so the
reading of a list is a reading of what is left of the list without them,
moved by nothing (`Aligned 0`).

# Main statements

* `parse_filter_comments`: reading without comments.
* `comments_transparent`: scanning and reading.
-/
import UiScript.Proofs.Reading.Comparison

namespace UiScript

/-- Where nothing is cut short and nothing is moved, what agrees is the same. -/
theorem Agree.eq_of_eq {α : Type} {x y : Except ParseFailure α}
    (h : Agree 0 (fun _ => False) (fun a b => b = a) x y) : y = x := by
  cases x with
  | error e => rw [h.of_error, ParseFailure.shift_zero]
  | ok a =>
    obtain ⟨b, hy, rfl⟩ := h.of_ok
    exact hy

namespace ParseRules

/-- A comment is no mark that could be refused. -/
theorem checkMarks_filter_comments (tokens : List Token) :
    checkMarks (tokens.filter fun t => !t.isComment) = checkMarks tokens := by
  induction tokens with
  | nil => rfl
  | cons t ts ih =>
    obtain ⟨kind, span⟩ := t
    rw [List.filter_cons]
    cases kind with
    | comment text =>
      show checkMarks (ts.filter fun t => !t.isComment) = _
      rw [ih]
      rfl
    | _ =>
      show checkMarks (_ :: ts.filter fun t => !t.isComment) = _
      unfold checkMarks
      rw [ih]

/-- What is read of a list is aligned with what is read of it without its
comments. -/
theorem aligned_filter_comments (tokens : List Token) :
    (startOf tokens).Aligned 0 (startOf (tokens.filter fun t => !t.isComment)) := by
  have hid : Token.shift 0 = id := funext Token.shift_zero
  obtain ⟨hrests, hseen, -⟩ := Cursor.ofTokens_spec tokens
  obtain ⟨hrests', hseen', -⟩ := Cursor.ofTokens_spec (tokens.filter fun t => !t.isComment)
  have haligned : (ParseState.mk (Cursor.ofTokens tokens) 0).Aligned 0
      ⟨Cursor.ofTokens (tokens.filter fun t => !t.isComment), 0⟩ := by
    refine ⟨hrests, hrests', ?_, rfl, fun hne => absurd rfl hne⟩
    rw [hseen, hseen', List.filter_filter, hid, List.map_id]
    simp only [Bool.and_self]
  exact haligned.skipSeparators

/-- Reading does not see comments. Two lists that differ in comments alone are
seen alike by cursors at rest, so the readings agree move by move. -/
theorem parse_filter_comments (rules : ParseRules) (tokens : List Token) :
    rules.parse (tokens.filter fun t => !t.isComment) = rules.parse tokens := by
  have haligned := aligned_filter_comments tokens
  refine Agree.eq_of_eq ?_
  rw [parse_eq, parse_eq, checkMarks_filter_comments, haligned.atEnd]
  cases refuse (checkMarks tokens) with
  | error failure => exact .fail failure.shift_zero.symm
  | ok _ =>
    show Agree 0 _ _ (if (startOf tokens).cursor.atEnd = true then _ else _) (if _ then _ else _)
    split
    · exact .fail (haligned.failHere rfl)
    · refine (readProgram_agrees (Stricter.refl 0 rules) [] [] haligned).bind ?_
      intro es es' _ hnew
      obtain ⟨new, hes, hes'⟩ := hnew
      show rootOf es' = rootOf es
      rw [hes, hes', map_shift_zero fun e _ => e.shift_zero]

end ParseRules

/-- Comments make no difference. Every source has the same tokens with
comments and without, less the comments, or fails to have any in the same way;
and every list of tokens, whatever stands in it, comes under all rules to the
same result as without its comments. -/
theorem comments_transparent :
    (∀ source : String, Token.ofSource source
        = (Token.ofSourceWithComments source).map (List.filter fun t => !t.isComment))
      ∧ ∀ (rules : ParseRules) (tokens : List Token),
        rules.parse tokens = rules.parse (tokens.filter fun t => !t.isComment) := by
  constructor
  · intro source
    exact Token.ofSource_eq_map source
  · intro rules tokens
    exact (rules.parse_filter_comments tokens).symm

end UiScript
