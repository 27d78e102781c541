/-
The forms of lexemes. What stands first decides which form a lexeme has, and
the form says how it is read; whatever is shown of all lexemes is shown form
by form.

# Main statements

* `ofChars_eq`: a lexeme is read by its form.
* `formOf_starts`, `exists_form`: what a lexeme of each form starts with, and
  the kinds of tokens that come of it.
* `isEnd_eq_false_of_ofChars`: no lexeme is the end of the input.
-/
import UiScript.Token.Lexeme

namespace UiScript.Token

/-- Whether a token is made of a name: a word of whatever kind, or a symbol. -/
def Kind.isWord : Kind → Bool
  | .identifier _ | .keyword _ | .boolean _ | .nil | .symbol _ => true
  | _ => false

theorem Kind.isEnd_eq_false_of_isWord {kind : Kind} (h : kind.isWord = true) :
    kind.isEnd = false := by
  cases kind <;> first | rfl | cases h

namespace Lexeme

/-- The forms that lexemes have. -/
inductive Form where
  | lineComment
  | blockComment
  | doubleQuoted
  | singleQuoted
  | symbol
  | numeral
  | word
  | mark

/-- The form of the lexeme at the front of a source. -/
def formOf (atLineStart : Bool) (c : Char) (cs : List Char) : Form :=
  if c = '#' then .lineComment
  else if c = '=' && atLineStart && isMarked openingMarker (c :: cs) then .blockComment
  else if c = '\x22' then .doubleQuoted
  else if c = '\x27' then .singleQuoted
  else if c = ':' && nameFollows cs then .symbol
  else if c.isDigit || (c = '-' && Numeral.startsWithDigit cs) then .numeral
  else if startsName c then .word
  else .mark

/-- The lexeme of a form. -/
def Form.read : Form → Char → List Char → Except LexicalError Lexeme
  | .lineComment, _, cs => .ok (Lexeme.lineComment cs)
  | .blockComment, c, cs => Lexeme.blockComment (c :: cs)
  | .doubleQuoted, _, cs => Lexeme.doubleQuoted cs
  | .singleQuoted, _, cs => Lexeme.singleQuoted cs
  | .symbol, _, cs => .ok (Lexeme.symbol cs)
  | .numeral, c, cs => .ok (Lexeme.numeral (c :: cs))
  | .word, c, cs => .ok (Lexeme.word (c :: cs))
  | .mark, c, cs => .ok ⟨.punctuation c, [c], cs⟩

/-- What a lexeme of a form starts with. -/
def Form.Starts : Form → Char → Prop
  | .lineComment, c => c = '#'
  | .blockComment, c => c = '='
  | .doubleQuoted, c => c = '\x22'
  | .singleQuoted, c => c = '\x27'
  | .symbol, c => c = ':'
  | .numeral, c => c.isDigit = true ∨ c = '-'
  | .word, c => startsName c = true
  | .mark, _ => True

/-- A lexeme is read by its form. The first characters tell the form, and then
each form has its own reader. -/
theorem ofChars_eq (atLineStart : Bool) (c : Char) (cs : List Char) :
    ofChars atLineStart c cs = (formOf atLineStart c cs).read c cs := by
  unfold ofChars formOf
  simp only [apply_ite (Form.read · c cs)]
  rfl

theorem formOf_starts (atLineStart : Bool) (c : Char) (cs : List Char) :
    (formOf atLineStart c cs).Starts c := by
  unfold formOf
  split
  · assumption
  split
  · next h =>
    simp only [Bool.and_eq_true, decide_eq_true_eq] at h
    exact h.1.1
  split
  · assumption
  split
  · assumption
  split
  · next h =>
    simp only [Bool.and_eq_true, decide_eq_true_eq] at h
    exact h.1
  split
  · next h =>
    simp only [Bool.or_eq_true, Bool.and_eq_true, decide_eq_true_eq] at h
    exact h.imp_right And.left
  split
  · assumption
  · trivial

/-- The kinds of tokens that come of a form. -/
def Form.Makes : Form → Kind → Prop
  | .lineComment, kind | .blockComment, kind => ∃ text, kind = .comment text
  | .doubleQuoted, kind | .singleQuoted, kind => ∃ value, kind = .string value
  | .symbol, kind => ∃ name, kind = .symbol name
  | .numeral, kind => ∃ value, kind = .number value
  | .word, kind => ∃ text, kind = kindOfWord text
  | .mark, kind => ∃ c, kind = .punctuation c

/-- A lexeme is of a kind that comes of its form. -/
theorem Form.makes_of_read {form : Form} {c : Char} {cs : List Char} {x : Lexeme}
    (h : form.read c cs = .ok x) : form.Makes x.kind := by
  cases form with
  | blockComment =>
    rw [Form.read, Lexeme.blockComment] at h
    split at h <;> cases h
    exact ⟨_, rfl⟩
  | doubleQuoted =>
    rw [Form.read, Lexeme.doubleQuoted] at h
    split at h
    · cases h
    · split at h <;> cases h
      exact ⟨_, rfl⟩
  | singleQuoted =>
    rw [Form.read, Lexeme.singleQuoted] at h
    split at h <;> cases h
    exact ⟨_, rfl⟩
  | _ =>
    cases h
    exact ⟨_, rfl⟩

/-- A lexeme is read by its form, and is of a kind that comes of it. This is
the case distinction that proofs about lexemes go by. -/
theorem exists_form {atLineStart : Bool} {c : Char} {cs : List Char} {x : Lexeme}
    (h : ofChars atLineStart c cs = .ok x) :
    ∃ form : Form, form.read c cs = .ok x ∧ form.Makes x.kind := by
  rw [ofChars_eq] at h
  exact ⟨_, h, Form.makes_of_read h⟩

theorem isWord_kindOfWord (w : String) : (kindOfWord w).isWord = true := by
  unfold kindOfWord
  split
  · rfl
  split
  · rfl
  split
  · rfl
  split <;> rfl

/-- No lexeme is the end of the input. -/
theorem isEnd_eq_false_of_ofChars {atLineStart : Bool} {c : Char} {cs : List Char} {x : Lexeme}
    (h : ofChars atLineStart c cs = .ok x) : x.kind.isEnd = false := by
  obtain ⟨form, -, hmakes⟩ := exists_form h
  cases form with
  | word =>
    obtain ⟨text, hkind⟩ := hmakes
    rw [hkind]
    exact Kind.isEnd_eq_false_of_isWord (isWord_kindOfWord text)
  | _ =>
    obtain ⟨_, hkind⟩ := hmakes
    rw [hkind]
    rfl

end Lexeme

end UiScript.Token
