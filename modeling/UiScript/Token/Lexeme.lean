/-
Lexemes: one token's piece of the source. Looking at the front of the
remaining source, `lexeme` decides what kind of token stands there and how
far it reaches. There are three ways to fail; any character that starts
nothing else is a punctuation token.

A block comment lasts from a line that starts with `=begin` to the end of
the first later line that starts with `=end`; each marker must be followed
by a space, a tab, a line break, NUL, or the end of the source.

# Main statements

* `text_append_rest` — a lexeme and the rest make up the input.
* `rest_length_lt` — every lexeme makes the rest shorter.
-/
import UiScript.Text.Bytes
import UiScript.Token.Basic
import UiScript.Token.Failure
import UiScript.Token.Numeral
import UiScript.Token.StringLiteral

namespace UiScript

open Text

namespace Token

/-- A token's kind, the characters it is made of, and the characters after it. -/
structure Lexeme where
  kind : Kind
  text : List Char
  rest : List Char

namespace Lexeme

-- ============================================================ characters

/-- The characters that separate tokens. -/
def isSpace (c : Char) : Bool :=
  c == ' ' || c == '\t' || c == '\n' || c == '\r' || c == '\x0b' || c == '\x0c'

/-- A letter or an underscore; letters are those of ASCII. -/
def startsName (c : Char) : Bool := c.isAlpha || c == '_'

/-- A letter, a digit or an underscore; letters and digits are those of ASCII. -/
def continuesName (c : Char) : Bool := c.isAlphanum || c == '_'

/-- Whether a name comes next. -/
def nameFollows : List Char → Bool
  | [] => false
  | c :: _ => startsName c

-- ======================================================== block comments

/-- What opens a block comment. -/
def openingMarker : List Char := ['=', 'b', 'e', 'g', 'i', 'n']

/-- What closes a block comment. -/
def closingMarker : List Char := ['=', 'e', 'n', 'd']

/-- Whether a marker may end here. -/
def markerEnds : List Char → Bool
  | [] => true
  | c :: _ => c == '\x00' || c == ' ' || c == '\t' || c == '\r' || c == '\n'

/-- Whether a marker stands here, and ends. -/
def isMarked (marker cs : List Char) : Bool :=
  marker.isPrefixOf cs && markerEnds (cs.drop marker.length)

/--
The characters up to the line break before a closing marker, that break included, and what follows
it; `passed` is passed already, in reverse.
-/
def splitCommentFrom (passed : List Char) : List Char → Option (List Char × List Char)
  | [] => none
  | c :: cs =>
    if c = '\n' && isMarked closingMarker cs then some ((c :: passed).reverse, cs)
    else splitCommentFrom (c :: passed) cs

/-- The characters without the line breaks at the two ends. -/
def trimLineBreaks (cs : List Char) : List Char :=
  ((cs.dropWhile (· == '\n')).reverse.dropWhile (· == '\n')).reverse

/-- A block comment, from its opening marker on. -/
def blockComment (cs : List Char) : Except LexicalError Lexeme :=
  let firstLine := cs.takeWhile (· != '\n')
  match splitCommentFrom [] (cs.dropWhile (· != '\n')) with
  | none => .error ⟨.unterminatedComment, ⟨0, width cs⟩⟩
  | some (body, closing) =>
    .ok {
      kind := .comment (String.ofList (trimLineBreaks body))
      text := firstLine ++ body ++ closing.takeWhile (· != '\n')
      rest := closing.dropWhile (· != '\n')
    }

/-- A comment to the end of the line, from just after its `#`. -/
def lineComment (cs : List Char) : Lexeme :=
  let text := cs.takeWhile (· != '\n')
  ⟨.comment (String.ofList text), '#' :: text, cs.dropWhile (· != '\n')⟩

-- ======================================================= other lexemes

/-- A string between single quotes, from just after the opening one. -/
def singleQuoted (cs : List Char) : Except LexicalError Lexeme :=
  match StringLiteral.splitBody '\x27' cs with
  | none => .error ⟨.unterminatedString, ⟨0, width ('\x27' :: cs)⟩⟩
  | some (body, rest) =>
    .ok ⟨.string (String.ofList (StringLiteral.decodeSingle body)),
      '\x27' :: (body ++ ['\x27']), rest⟩

/-- A string between double quotes, from just after the opening one. -/
def doubleQuoted (cs : List Char) : Except LexicalError Lexeme :=
  match StringLiteral.splitBody '\x22' cs with
  | none => .error ⟨.unterminatedString, ⟨0, width ('\x22' :: cs)⟩⟩
  | some (body, rest) =>
    match StringLiteral.decodeDouble body with
    | .error (start, stop) => .error ⟨.invalidCodePoint, ⟨1 + start, 1 + stop⟩⟩
    | .ok value => .ok ⟨.string (String.ofList value), '\x22' :: (body ++ ['\x22']), rest⟩

/-- A symbol, from just after its colon. -/
def symbol (cs : List Char) : Lexeme :=
  let name := cs.takeWhile continuesName
  ⟨.symbol (String.ofList name), ':' :: name, cs.dropWhile continuesName⟩

/-- A numeral. -/
def numeral (cs : List Char) : Lexeme :=
  let (n, rest) := Numeral.split cs
  ⟨.number n.value, n.text, rest⟩

/-- What a whole word is: a constant, a keyword or an identifier. -/
def kindOfWord (word : String) : Kind :=
  if word = "true" then .boolean true
  else if word = "false" then .boolean false
  else if word = "nil" then .nil
  else match Keyword.ofText? word with
    | some keyword => .keyword keyword
    | none => .identifier word

/-- A word. -/
def word (cs : List Char) : Lexeme :=
  let text := cs.takeWhile continuesName
  ⟨kindOfWord (String.ofList text), text, cs.dropWhile continuesName⟩

/-- The lexeme at the front of a source; `atLineStart` tells whether a line
begins there. -/
def ofChars (atLineStart : Bool) (c : Char) (cs : List Char) : Except LexicalError Lexeme :=
  if c = '#' then .ok (lineComment cs)
  else if c = '=' && atLineStart && isMarked openingMarker (c :: cs) then blockComment (c :: cs)
  else if c = '\x22' then doubleQuoted cs
  else if c = '\x27' then singleQuoted cs
  else if c = ':' && nameFollows cs then .ok (symbol cs)
  else if c.isDigit || (c = '-' && Numeral.startsWithDigit cs) then .ok (numeral (c :: cs))
  else if startsName c then .ok (word (c :: cs))
  else .ok ⟨.punctuation c, [c], cs⟩

-- ================================================================== laws

theorem splitCommentFrom_eq {passed cs body closing : List Char}
    (h : splitCommentFrom passed cs = some (body, closing)) :
    passed.reverse ++ cs = body ++ closing := by
  fun_induction splitCommentFrom passed cs with
  | case1 => cases h
  | case2 => cases h; simp
  | case3 passed c cs _ ih => simpa using ih h

theorem blockComment_text_append {cs : List Char} {x : Lexeme} (h : blockComment cs = .ok x) :
    x.text ++ x.rest = cs := by
  simp only [blockComment] at h
  split at h
  · cases h
  · next body closing hsplit =>
    cases h
    have := splitCommentFrom_eq hsplit
    simp only [List.reverse_nil, List.nil_append] at this
    simp only [List.append_assoc, List.takeWhile_append_dropWhile]
    rw [← this, List.takeWhile_append_dropWhile]

/-- A lexeme and the rest make up the input. Nothing is lost on the way, so
the offsets of tokens can be told from the widths of texts. -/
theorem text_append_rest {atLineStart : Bool} {c : Char} {cs : List Char} {x : Lexeme}
    (h : ofChars atLineStart c cs = .ok x) : x.text ++ x.rest = c :: cs := by
  unfold ofChars at h
  split at h
  · next hc =>
    cases h
    simp [lineComment, hc, List.takeWhile_append_dropWhile]
  split at h
  · exact blockComment_text_append h
  split at h
  · next hc =>
    unfold doubleQuoted at h
    split at h
    · cases h
    · next hsplit =>
      split at h
      · cases h
      · cases h
        simp [hc, StringLiteral.splitBody_eq hsplit]
  split at h
  · next hc =>
    unfold singleQuoted at h
    split at h
    · cases h
    · next hsplit =>
      cases h
      simp [hc, StringLiteral.splitBody_eq hsplit]
  split at h
  · next hc =>
    cases h
    simp only [Bool.and_eq_true, decide_eq_true_eq] at hc
    simp [symbol, hc.1, List.takeWhile_append_dropWhile]
  split at h
  · cases h
    exact Numeral.split_eq (c :: cs)
  split at h
  · cases h
    simp [word, List.takeWhile_append_dropWhile]
  · cases h
    rfl

/-- No lexeme is empty. -/
theorem text_ne_nil {atLineStart : Bool} {c : Char} {cs : List Char} {x : Lexeme}
    (h : ofChars atLineStart c cs = .ok x) : x.text ≠ [] := by
  unfold ofChars at h
  split at h
  · cases h
    simp [lineComment]
  split at h
  · next hc =>
    simp only [Bool.and_eq_true, decide_eq_true_eq] at hc
    unfold blockComment at h
    split at h
    · cases h
    · cases h
      simp [hc.1.1]
  split at h
  · unfold doubleQuoted at h
    split at h
    · cases h
    · split at h
      · cases h
      · cases h
        simp
  split at h
  · unfold singleQuoted at h
    split at h
    · cases h
    · cases h
      simp
  split at h
  · cases h
    simp [symbol]
  split at h
  · next hc =>
    cases h
    refine Numeral.text_ne_nil ?_
    simp only [Bool.or_eq_true, Bool.and_eq_true, decide_eq_true_eq] at hc
    exact hc.imp_right And.left
  split at h
  · next hc =>
    cases h
    have : continuesName c = true := by
      simp only [startsName, Bool.or_eq_true] at hc
      simp only [continuesName, Char.isAlphanum, Bool.or_eq_true]
      exact hc.imp_left Or.inl
    simp [word, this]
  · cases h
    simp

/-- Every lexeme makes the rest shorter. A scan ends because of this. -/
theorem rest_length_lt {atLineStart : Bool} {c : Char} {cs : List Char} {x : Lexeme}
    (h : ofChars atLineStart c cs = .ok x) : x.rest.length < (c :: cs).length := by
  rw [← text_append_rest h, List.length_append]
  have := List.length_pos_iff.2 (text_ne_nil h)
  omega

end Lexeme

end Token

end UiScript
