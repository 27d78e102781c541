/-
Tokens: the words of a script, each with the byte range it stands in. A
list of tokens made from a source ends with one token for the end of the
input; comments are tokens too, and may be left out.

# Main statements

* `Kind.isComment_eq_false_of_isEnd` — the end of the input is no comment.
-/
import UiScript.Number
import UiScript.Span
import UiScript.Text.Quoted

namespace UiScript

/-- The reserved words that shape a program. -/
inductive Keyword where
  /-- Opens a block. -/
  | opensBlock
  /-- Closes a block. -/
  | closesBlock
deriving DecidableEq

namespace Keyword

/-- The spelling of a keyword. -/
def text : Keyword → String
  | .opensBlock => "do"
  | .closesBlock => "end"

/-- The keyword with a given spelling. -/
def ofText? (word : String) : Option Keyword :=
  if word = "do" then some .opensBlock else if word = "end" then some .closesBlock else none

end Keyword

namespace Token

/-- What a token is. -/
inductive Kind where
  | identifier (name : String)
  | keyword (word : Keyword)
  /-- Any other single character. -/
  | punctuation (mark : Char)
  /-- A string literal, by the text it stands for. -/
  | string (value : String)
  | number (value : Number)
  /-- A symbol, without its colon. -/
  | symbol (name : String)
  | boolean (value : Bool)
  | nil
  | comment (text : String)
  | endOfInput
deriving DecidableEq, Inhabited

end Token

/-- A token and where it stands. -/
structure Token where
  kind : Token.Kind
  span : Span
deriving DecidableEq, Inhabited

namespace Token

-- =============================================================== questions

namespace Kind

/-- Whether the token is the given punctuation mark. -/
def isMark (c : Char) : Kind → Bool
  | .punctuation mark => mark == c
  | _ => false

/-- Whether the token is the given keyword. -/
def isKeyword (w : Keyword) : Kind → Bool
  | .keyword word => word == w
  | _ => false

/-- Whether the token is a comment. -/
def isComment : Kind → Bool
  | .comment _ => true
  | _ => false

/-- Whether the token is the end of the input. -/
def isEnd : Kind → Bool
  | .endOfInput => true
  | _ => false

theorem isComment_eq_false_of_isEnd {kind : Kind} (h : kind.isEnd = true) :
    kind.isComment = false := by
  cases kind <;> first | rfl | cases h

theorem isEnd_eq_false_of_isMark {kind : Kind} {c : Char} (h : kind.isMark c = true) :
    kind.isEnd = false := by
  cases kind <;> first | rfl | cases h

theorem isEnd_eq_false_of_isKeyword {kind : Kind} {w : Keyword} (h : kind.isKeyword w = true) :
    kind.isEnd = false := by
  cases kind <;> first | rfl | cases h

-- ============================================================== as text

/-- A token as a message names it. -/
def describe : Kind → String
  | .identifier name => s!"identifier `{name}`"
  | .keyword word => s!"keyword `{word.text}`"
  | .punctuation mark => s!"`{mark}`"
  | .string _ => "string literal"
  | .number value => s!"number `{value.text}`"
  | .symbol name => s!"symbol `:{name}`"
  | .boolean value => s!"`{value}`"
  | .nil => "`nil`"
  | .comment _ => "comment"
  | .endOfInput => "end of input"

/-- A token as debugging output shows it. -/
def shown : Kind → String
  | .identifier name => s!"Ident({name})"
  | .keyword word => s!"Keyword({word.text})"
  | .punctuation mark => s!"Punct({Text.quotedChar mark})"
  | .string value => s!"String({Text.quoted value})"
  | .number value => s!"Number({value.text})"
  | .symbol name => s!"Symbol({name})"
  | .boolean value => s!"Bool({value})"
  | .nil => "Nil"
  | .comment text => s!"Comment({Text.quoted text})"
  | .endOfInput => "Eof"

end Kind

/-- A token and its span as debugging output shows them. -/
def shown (t : Token) : String := s!"{t.kind.shown} @ {t.span.text}"

/-- Whether the token is a comment. -/
def isComment (t : Token) : Bool := t.kind.isComment

/-- What stands past the last token of a list. -/
def missing : Token := ⟨.endOfInput, Span.nowhere⟩

end Token

end UiScript
