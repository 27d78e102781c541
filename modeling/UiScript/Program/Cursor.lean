/-
A cursor in a list of tokens. It rests on a token that is no comment, or
past the last token; there, and on a token for the end of the input, it
stays. What it has passed and what lies ahead make up the list.

# Main statements

* `advance_size_lt` — advancing makes less lie ahead, except at the end.
* `passed_reverse_append_ahead_advance` — advancing keeps the list.
-/
import UiScript.Token.Basic

namespace UiScript

/-- A place in a list of tokens. -/
structure Cursor where
  /-- The tokens before the cursor, the nearest one first. -/
  passed : List Token
  /-- The tokens from the cursor on. -/
  ahead : List Token
deriving DecidableEq

namespace Cursor

-- ================================================================== moving

/-- The cursor on the first token of `ahead` that is no comment. -/
def skipComments (passed : List Token) : List Token → Cursor
  | [] => ⟨passed, []⟩
  | t :: ts => if t.isComment then skipComments (t :: passed) ts else ⟨passed, t :: ts⟩

/-- The cursor on the first token of a list that is no comment. -/
def ofTokens (tokens : List Token) : Cursor := skipComments [] tokens

/-- How many tokens the cursor has passed. -/
def position (c : Cursor) : Nat := c.passed.length

/-- How many tokens lie ahead. -/
def size (c : Cursor) : Nat := c.ahead.length

/-- The token under the cursor. -/
def current (c : Cursor) : Token := c.ahead.headD Token.missing

/-- The kind of the token under the cursor. -/
def kind (c : Cursor) : Token.Kind := c.current.kind

/-- The span of the token under the cursor. -/
def span (c : Cursor) : Span := c.current.span

/-- Whether the cursor is at the end of the input. -/
def atEnd (c : Cursor) : Bool := c.kind.isEnd

/-- Whether a punctuation mark is under the cursor. -/
def atMark (c : Cursor) (mark : Char) : Bool := c.kind.isMark mark

/-- Whether a keyword is under the cursor. -/
def atKeyword (c : Cursor) (word : Keyword) : Bool := c.kind.isKeyword word

/-- The span of the last token passed that is no comment. -/
def previousSpan (c : Cursor) : Span :=
  match c.passed.find? fun t => !t.isComment with
  | some t => t.span
  | none => Span.nowhere

/-- The kind of the token after the one under the cursor, comments left out. -/
def peekKind (c : Cursor) : Token.Kind :=
  match (c.ahead.drop 1).find? fun t => !t.isComment with
  | some t => t.kind
  | none => .endOfInput

/-- The cursor one token further on; at the end of the input it stays. -/
def advance (c : Cursor) : Cursor :=
  match c.ahead with
  | [] => c
  | t :: ts => if t.kind.isEnd then c else skipComments (t :: c.passed) ts

-- ==================================================================== laws

theorem skipComments_size_le (passed ahead : List Token) :
    (skipComments passed ahead).size ≤ ahead.length := by
  induction ahead generalizing passed with
  | nil => simp [skipComments, size]
  | cons t ts ih =>
    simp only [skipComments]
    split
    · exact Nat.le_succ_of_le (ih _)
    · simp [size]

/-- Advancing never makes more lie ahead. -/
theorem advance_size_le (c : Cursor) : c.advance.size ≤ c.size := by
  obtain ⟨passed, ahead⟩ := c
  cases ahead with
  | nil => simp [advance]
  | cons t ts =>
    simp only [advance]
    split
    · exact Nat.le_refl _
    · exact Nat.le_succ_of_le (skipComments_size_le _ _)

/-- Advancing makes less lie ahead, except at the end. This is the measure of
every loop over the tokens. -/
theorem advance_size_lt {c : Cursor} (h : c.atEnd = false) : c.advance.size < c.size := by
  obtain ⟨passed, ahead⟩ := c
  cases ahead with
  | nil => cases h
  | cons t ts =>
    have ht : t.kind.isEnd = false := h
    simp only [advance, ht]
    exact Nat.lt_succ_of_le (skipComments_size_le _ _)

theorem atEnd_eq_false_of_atMark {c : Cursor} {mark : Char} (h : c.atMark mark = true) :
    c.atEnd = false :=
  Token.Kind.isEnd_eq_false_of_isMark h

theorem atEnd_eq_false_of_atKeyword {c : Cursor} {word : Keyword} (h : c.atKeyword word = true) :
    c.atEnd = false :=
  Token.Kind.isEnd_eq_false_of_isKeyword h

theorem skipComments_append (passed ahead : List Token) :
    (skipComments passed ahead).passed.reverse ++ (skipComments passed ahead).ahead
      = passed.reverse ++ ahead := by
  induction ahead generalizing passed with
  | nil => rfl
  | cons t ts ih =>
    simp only [skipComments]
    split
    · simp [ih]
    · rfl

/-- Advancing keeps the list of tokens. What is passed and what is ahead are
two halves of one list, whatever the cursor does. -/
theorem passed_reverse_append_ahead_advance (c : Cursor) :
    c.advance.passed.reverse ++ c.advance.ahead = c.passed.reverse ++ c.ahead := by
  obtain ⟨passed, ahead⟩ := c
  cases ahead with
  | nil => rfl
  | cons t ts =>
    simp only [advance]
    split
    · rfl
    · simp [skipComments_append]

-- ============================================================== separators

/-- The cursor past the statement separators under it. -/
def skipSeparators (c : Cursor) : Cursor :=
  if h : c.atMark ';' = true then
    have := advance_size_lt (atEnd_eq_false_of_atMark h)
    c.advance.skipSeparators
  else c
termination_by c.size

theorem skipSeparators_size_le (c : Cursor) : c.skipSeparators.size ≤ c.size := by
  fun_induction skipSeparators c with
  | case1 c _ _ ih => exact Nat.le_trans ih c.advance_size_le
  | case2 => exact Nat.le_refl _

end Cursor

end UiScript
