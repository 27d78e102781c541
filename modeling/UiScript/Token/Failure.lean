/-
Why a source has no tokens. There are three faults; a literal or a comment
that never ends is marked where it starts, a code point that is none over
all of its digits.
-/
import UiScript.Diagnostic.Basic

namespace UiScript

/-- Why a source has no tokens. -/
inductive LexicalFault where
  /-- A string literal without its closing quote. -/
  | unterminatedString
  /-- A block comment without its closing line. -/
  | unterminatedComment
  /-- A code point that is written wrongly, or is none. -/
  | invalidCodePoint
deriving DecidableEq

namespace LexicalFault

/-- The code of a fault. -/
def code : LexicalFault → ErrorCode
  | .unterminatedString => .unterminatedString
  | .unterminatedComment => .unterminatedComment
  | .invalidCodePoint => .invalidCodePoint

/-- A fault in words. -/
def text : LexicalFault → String
  | .unterminatedString => "unterminated string literal"
  | .unterminatedComment => "unterminated block comment"
  | .invalidCodePoint => "invalid unicode escape"

end LexicalFault

/-- A lexical fault and where it stands. -/
structure LexicalError where
  fault : LexicalFault
  span : Span
deriving DecidableEq

namespace LexicalError

/-- The code of an error. -/
def code (e : LexicalError) : ErrorCode := e.fault.code

/-- An error in words. -/
def message (e : LexicalError) : String := s!"{e.fault.text} at {e.span.text}"

/-- An error as its reader sees it. -/
def diagnostic (e : LexicalError) : Diagnostic :=
  let plain := Diagnostic.error e.code e.fault.text
  match e.fault with
  | .unterminatedString =>
    (plain.withLabel (.point e.span.start) "string starts here").withHelp "add the closing quote"
  | .unterminatedComment =>
    (plain.withLabel (.point e.span.start) "comment starts here").withHelp
      "add a line starting with `=end`"
  | .invalidCodePoint =>
    (plain.withLabel e.span "not a valid code point").withNote
      "unicode escapes take 1 to 6 hex digits: `\\u\x7b1F600\x7d`"

/-- The same error, `distance` bytes further on. -/
def shift (distance : Nat) (e : LexicalError) : LexicalError := ⟨e.fault, e.span.shift distance⟩

/-- The error with its span held within the limit. -/
def saturate (e : LexicalError) : LexicalError := ⟨e.fault, e.span.saturate⟩

end LexicalError

end UiScript
