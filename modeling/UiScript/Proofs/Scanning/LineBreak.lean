/-
No lexeme looks past a line break. What stands at the front of a text stands
there still, and reaches as far, when a line break and anything else is
appended: a word, a symbol, a numeral and a line comment stop before it, a
marker of a block comment may end at it as it may at the end of the text,
and a string literal that was closed stays closed.

A numeral stops before any space, and for this it is shown of all of them.

Only success is kept. A literal or a block comment that the text leaves open
may well be closed by what is appended.

# Main statements

* `formOf_append`: a lexeme keeps its form.
* `ofChars_append`: the lexeme of a text is the lexeme of the text with a
  line break after it.
-/
import UiScript.Proofs.Scanning.Forms

namespace UiScript

namespace Token

variable {ds : List Char}

-- ================================================================== prefixes

/-- What satisfies a test that a line break fails is taken from the text
alone. -/
theorem takeWhile_append_break {p : Char → Bool} (hp : p '\n' = false) (cs : List Char) :
    (cs ++ '\n' :: ds).takeWhile p = cs.takeWhile p := by
  induction cs with
  | nil => simp [hp]
  | cons c cs ih =>
    rw [List.cons_append, List.takeWhile_cons, List.takeWhile_cons, ih]

/-- No line break is among what satisfies such a test. -/
theorem not_mem_takeWhile {p : Char → Bool} (hp : p '\n' = false) (cs : List Char) :
    '\n' ∉ cs.takeWhile p := fun hmem =>
  Bool.false_ne_true (hp.symm.trans (List.all_eq_true.1 List.all_takeWhile _ hmem))

/-- What is left behind it is what was left, with the line break and all that
comes after it. -/
theorem dropWhile_append_break {p : Char → Bool} (hp : p '\n' = false) (cs : List Char) :
    (cs ++ '\n' :: ds).dropWhile p = cs.dropWhile p ++ '\n' :: ds := by
  induction cs with
  | nil => simp [hp]
  | cons c cs ih =>
    rw [List.cons_append, List.dropWhile_cons, List.dropWhile_cons, ih]
    split <;> rfl

/-- A marker without a line break is found at the front of the text or
nowhere. -/
theorem isPrefixOf_append_break {marker : List Char} (hmarker : '\n' ∉ marker) (cs : List Char) :
    marker.isPrefixOf (cs ++ '\n' :: ds) = marker.isPrefixOf cs := by
  induction marker generalizing cs with
  | nil => simp
  | cons m ms ih =>
    obtain ⟨hm, hms⟩ := not_or.1 (mt List.mem_cons.2 hmarker)
    cases cs with
    | nil =>
      have hne : (m == '\n') = false := by simpa using Ne.symm hm
      simp [List.isPrefixOf, hne]
    | cons c cs => simp [List.isPrefixOf, ih hms]

-- ================================================================== numerals

/-- No part of a numeral is a space. -/
theorem not_numeral_of_isSpace {b : Char} (h : Lexeme.isSpace b = true) :
    b.isDigit = false ∧ b ∉ ['-', '+', '.', '_', 'e', 'E'] := by
  simp only [Lexeme.isSpace, Bool.or_eq_true, beq_iff_eq] at h
  rcases h with ((((rfl | rfl) | rfl) | rfl) | rfl) | rfl <;> decide

namespace Numeral

variable {b : Char} (hb : Lexeme.isSpace b = true)

include hb

/-- A space is no digit, so it starts none. -/
theorem startsWithDigit_append (cs : List Char) :
    startsWithDigit (cs ++ b :: ds) = startsWithDigit cs := by
  cases cs with
  | nil => exact (not_numeral_of_isSpace hb).1
  | cons c cs => rfl

/-- A run of digits ends before a space. -/
theorem splitDigitsFrom_append (run cs : List Char) :
    splitDigitsFrom run (cs ++ b :: ds)
      = ((splitDigitsFrom run cs).1, (splitDigitsFrom run cs).2 ++ b :: ds) := by
  induction cs generalizing run with
  | nil =>
    obtain ⟨hdigit, hmark⟩ := not_numeral_of_isSpace hb
    have hjoin : b ≠ '_' := by
      rintro rfl
      exact hmark (by simp)
    simp [splitDigitsFrom, hdigit, hjoin]
  | cons c cs ih =>
    rw [List.cons_append, splitDigitsFrom, splitDigitsFrom, startsWithDigit_append hb]
    split
    · exact ih _
    · rfl

theorem splitDigits_append (cs : List Char) :
    splitDigits (cs ++ b :: ds) = ((splitDigits cs).1, (splitDigits cs).2 ++ b :: ds) :=
  splitDigitsFrom_append hb [] cs

/-- A sign is looked for at the front only. -/
theorem splitSign_append (cs : List Char) :
    splitSign (cs ++ b :: ds) = ((splitSign cs).1, (splitSign cs).2 ++ b :: ds) := by
  cases cs with
  | nil =>
    have hsign : b ≠ '-' := by
      rintro rfl
      exact (not_numeral_of_isSpace hb).2 (by simp)
    simp [splitSign, hsign]
  | cons c cs =>
    by_cases hc : c = '-'
    · subst hc
      rfl
    · simp [splitSign, hc]

/-- A fraction needs a digit behind its dot, and a space is none. -/
theorem splitFraction_append (cs : List Char) :
    splitFraction (cs ++ b :: ds) = ((splitFraction cs).1, (splitFraction cs).2 ++ b :: ds) := by
  cases cs with
  | nil =>
    have hpoint : b ≠ '.' := by
      rintro rfl
      exact (not_numeral_of_isSpace hb).2 (by simp)
    simp [splitFraction, hpoint]
  | cons c cs =>
    by_cases hc : c = '.'
    · subst hc
      simp only [List.cons_append, splitFraction, startsWithDigit_append hb,
        splitDigits_append hb]
      split <;> rfl
    · simp [splitFraction, hc]

/-- An exponent needs a digit behind its letter and its sign, and a space is
none. -/
theorem splitExponent_append (cs : List Char) :
    splitExponent (cs ++ b :: ds) = ((splitExponent cs).1, (splitExponent cs).2 ++ b :: ds) := by
  obtain ⟨hdigit, hmark⟩ := not_numeral_of_isSpace hb
  simp only [List.mem_cons, List.not_mem_nil, or_false, not_or] at hmark
  match cs with
  | [] => cases ds <;> simp [splitExponent, hmark]
  | [c] => simp [splitExponent, hdigit, hmark]
  | c :: d :: cs =>
    simp only [splitExponent, List.cons_append, startsWithDigit_append hb, splitDigits_append hb]
    rw [← List.cons_append, splitDigits_append hb]
    split
    · split
      · rfl
      · split <;> rfl
    · rfl

/-- The parts of a numeral are found in the text alone, and the rest is what
was left with the space behind it. -/
theorem split_append (cs : List Char) :
    split (cs ++ b :: ds) = ((split cs).1, (split cs).2 ++ b :: ds) := by
  simp only [split, splitSign_append hb, splitDigits_append hb, splitFraction_append hb,
    splitExponent_append hb]

end Numeral

-- =========================================================== string literals

/-- A string literal that is closed is closed by the same quote, however the
text goes on. The backslash before a quote is looked at from the front, and
nothing in front has changed. -/
theorem splitBodyFrom_append {quote : Char} (hquote : quote ≠ '\\') {body cs b rest : List Char}
    (h : StringLiteral.splitBodyFrom quote body cs = some (b, rest)) :
    StringLiteral.splitBodyFrom quote body (cs ++ '\n' :: ds) = some (b, rest ++ '\n' :: ds) := by
  fun_induction StringLiteral.splitBodyFrom quote body cs with
  | case1 => cases h
  | case2 body =>
    cases h
    simp [StringLiteral.splitBodyFrom, hquote]
  | case3 => cases h
  | case4 body d cs ih =>
    rw [List.cons_append, List.cons_append, StringLiteral.splitBodyFrom, if_pos rfl]
    exact ih h
  | case5 body d cs =>
    cases h
    rw [List.cons_append, List.cons_append, StringLiteral.splitBodyFrom, if_neg hquote, if_pos rfl]
  | case6 body c d cs hc hq ih =>
    rw [List.cons_append, List.cons_append, StringLiteral.splitBodyFrom, if_neg hc, if_neg hq]
    exact ih h

namespace Lexeme

-- ============================================================ block comments

/-- A marker of a block comment at the end of the text stays one before a line
break. -/
theorem isMarked_append {marker : List Char} (hmarker : '\n' ∉ marker) (cs : List Char) :
    isMarked marker (cs ++ '\n' :: ds) = isMarked marker cs := by
  unfold isMarked
  rw [isPrefixOf_append_break hmarker]
  cases hprefix : marker.isPrefixOf cs with
  | false => rfl
  | true =>
    obtain ⟨us, rfl⟩ := List.isPrefixOf_iff_prefix.1 hprefix
    rw [List.append_assoc, List.drop_left, List.drop_left]
    cases us <;> rfl

/-- A block comment that is closed is closed by the same marker. -/
theorem splitCommentFrom_append {passed cs body closing : List Char}
    (h : splitCommentFrom passed cs = some (body, closing)) :
    splitCommentFrom passed (cs ++ '\n' :: ds) = some (body, closing ++ '\n' :: ds) := by
  have hmarker : '\n' ∉ closingMarker := by decide
  fun_induction splitCommentFrom passed cs with
  | case1 => cases h
  | case2 passed c cs hc =>
    cases h
    rw [List.cons_append, splitCommentFrom, isMarked_append hmarker, if_pos hc]
  | case3 passed c cs hc ih =>
    rw [List.cons_append, splitCommentFrom, isMarked_append hmarker, if_neg hc]
    exact ih h

-- ================================================================== lexemes

/-- The same lexeme with more text after it. -/
def followedBy (x : Lexeme) (more : List Char) : Lexeme := { x with rest := x.rest ++ more }

/-- A block comment reaches as far as it did. -/
theorem blockComment_append {cs : List Char} {x : Lexeme} (h : blockComment cs = .ok x) :
    blockComment (cs ++ '\n' :: ds) = .ok (x.followedBy ('\n' :: ds)) := by
  simp only [blockComment] at h ⊢
  rw [takeWhile_append_break (p := (· != '\n')) rfl, dropWhile_append_break (p := (· != '\n')) rfl]
  split at h
  · cases h
  · next body closing hsplit =>
    cases h
    simp only [splitCommentFrom_append hsplit]
    rw [takeWhile_append_break (p := (· != '\n')) rfl,
      dropWhile_append_break (p := (· != '\n')) rfl]
    rfl

theorem doubleQuoted_append {cs : List Char} {x : Lexeme} (h : doubleQuoted cs = .ok x) :
    doubleQuoted (cs ++ '\n' :: ds) = .ok (x.followedBy ('\n' :: ds)) := by
  unfold doubleQuoted at h ⊢
  split at h
  · cases h
  · next body rest hsplit =>
    have hsplit' : StringLiteral.splitBody '\x22' (cs ++ '\n' :: ds)
        = some (body, rest ++ '\n' :: ds) := splitBodyFrom_append (by decide) hsplit
    rw [hsplit']
    dsimp only
    split at h
    · cases h
    · next value hvalue =>
      cases h
      rfl

theorem singleQuoted_append {cs : List Char} {x : Lexeme} (h : singleQuoted cs = .ok x) :
    singleQuoted (cs ++ '\n' :: ds) = .ok (x.followedBy ('\n' :: ds)) := by
  unfold singleQuoted at h ⊢
  split at h
  · cases h
  · next body rest hsplit =>
    have hsplit' : StringLiteral.splitBody '\x27' (cs ++ '\n' :: ds)
        = some (body, rest ++ '\n' :: ds) := splitBodyFrom_append (by decide) hsplit
    cases h
    rw [hsplit']
    rfl

/-- Whether a name follows is told by one character, which a line break does
not give. -/
theorem nameFollows_append (cs : List Char) : nameFollows (cs ++ '\n' :: ds) = nameFollows cs := by
  cases cs <;> rfl

/-- The form of a lexeme is told by its first characters, which stay what they
are. -/
theorem formOf_append (atLineStart : Bool) (c : Char) (cs : List Char) :
    formOf atLineStart c (cs ++ '\n' :: ds) = formOf atLineStart c cs := by
  have hmarked : isMarked openingMarker (c :: (cs ++ '\n' :: ds))
      = isMarked openingMarker (c :: cs) :=
    isMarked_append (by decide) (c :: cs)
  unfold formOf
  rw [hmarked, nameFollows_append, Numeral.startsWithDigit_append rfl]

/-- In each form a lexeme is read up to where it ended before. -/
theorem Form.read_append {form : Form} {c : Char} {cs : List Char} {x : Lexeme}
    (h : form.read c cs = .ok x) :
    form.read c (cs ++ '\n' :: ds) = .ok (x.followedBy ('\n' :: ds)) := by
  have hname : continuesName '\n' = false := rfl
  cases form with
  | lineComment =>
    cases h
    rw [Form.read, Lexeme.lineComment, takeWhile_append_break (p := (· != '\n')) rfl,
      dropWhile_append_break (p := (· != '\n')) rfl]
    rfl
  | blockComment => exact blockComment_append h
  | doubleQuoted => exact doubleQuoted_append h
  | singleQuoted => exact singleQuoted_append h
  | symbol =>
    cases h
    rw [Form.read, Lexeme.symbol, takeWhile_append_break hname, dropWhile_append_break hname]
    rfl
  | numeral =>
    cases h
    rw [Form.read, Lexeme.numeral, ← List.cons_append, Numeral.split_append rfl]
    rfl
  | word =>
    cases h
    rw [Form.read, Lexeme.word, ← List.cons_append, takeWhile_append_break hname,
      dropWhile_append_break hname]
    rfl
  | mark =>
    cases h
    rfl

/-- The lexeme of a text is the lexeme of the text with a line break after it.
An open literal or comment has no lexeme, so nothing is said of it. -/
theorem ofChars_append {atLineStart : Bool} {c : Char} {cs : List Char} {x : Lexeme}
    (h : ofChars atLineStart c cs = .ok x) :
    ofChars atLineStart c (cs ++ '\n' :: ds) = .ok (x.followedBy ('\n' :: ds)) := by
  rw [ofChars_eq] at h ⊢
  rw [formOf_append]
  exact Form.read_append h

end Lexeme

end Token

end UiScript
