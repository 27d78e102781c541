/-
Why a list of tokens is no program: an error of grammar, or something that
the policy refused. Each error of grammar is a cause with what the reader
is told about it; texts are derived from the cause.
-/
import UiScript.Policy.Rejection
import UiScript.Token.Basic

namespace UiScript

/-- What opens and closes a part of a program. -/
inductive Delimiter where
  /-- The parentheses of an argument list. -/
  | arguments
  /-- Parentheses around an expression. -/
  | parentheses
  /-- The keywords around a block. -/
  | keywords
  /-- The braces around a block. -/
  | braces
deriving DecidableEq

/-- What may stand where a delimiter could be closed. -/
def Delimiter.expectation : Delimiter → String
  | .arguments => "`,` or `)`"
  | .parentheses => "`)`"
  | .keywords => "`end`"
  | .braces => "`\x7d`"

namespace SyntaxError

/-- The causes of errors of grammar. -/
inductive Cause where
  /-- A delimiter could be closed here, and something else was found. -/
  | unexpected (delimiter : Delimiter) (found : Token.Kind)
  /-- No expression starts here. -/
  | missingExpression (found : Token.Kind)
  /-- The input ends before the delimiter that was opened at `opened` is closed. -/
  | unclosed (delimiter : Delimiter) (opened : Span) (found : Token.Kind)
  /-- No name follows the point. -/
  | missingName (found : Token.Kind)
  | nestingTooDeep (limit : Nat) (found : Token.Kind)
  | chainTooLong (limit : Nat) (found : Token.Kind)
  | duplicateKey (key : String)
  | positionalAfterNamed (found : Token.Kind)
  | emptyInput
deriving DecidableEq

namespace Cause

/-- The code of a cause. -/
def code : Cause → ErrorCode
  | .unexpected .. => .unexpectedToken
  | .missingExpression _ => .missingExpression
  | .unclosed .. => .unclosedDelimiter
  | .missingName _ => .missingName
  | .nestingTooDeep .. => .nestingTooDeep
  | .chainTooLong .. => .chainTooLong
  | .duplicateKey _ => .duplicateKey
  | .positionalAfterNamed _ => .positionalAfterNamed
  | .emptyInput => .emptyInput

/-- A cause in words. -/
def text : Cause → String
  | .unexpected .. => "unexpected token"
  | .missingExpression _ => "missing expression"
  | .unclosed .. => "unclosed delimiter"
  | .missingName _ => "missing method name"
  | .nestingTooDeep limit _ => s!"nesting exceeds the limit of {limit}"
  | .chainTooLong limit _ => s!"method chain exceeds the limit of {limit} calls"
  | .duplicateKey key => s!"duplicate named argument `{key}`"
  | .positionalAfterNamed _ => "positional argument after named arguments"
  | .emptyInput => "empty input"

/-- What could have stood there, if that is one thing. -/
def expected? : Cause → Option String
  | .unexpected delimiter _ | .unclosed delimiter _ _ => some delimiter.expectation
  | .missingExpression _ => some "an expression"
  | .missingName _ => some "a method name"
  | .positionalAfterNamed _ => some "a named argument"
  | .emptyInput => some "a statement"
  | .nestingTooDeep .. | .chainTooLong .. | .duplicateKey _ => none

/-- What stands there. -/
def found : Cause → String
  | .unexpected _ found | .missingExpression found | .unclosed _ _ found | .missingName found
  | .nestingTooDeep _ found | .chainTooLong _ found | .positionalAfterNamed found => found.describe
  | .duplicateKey key => s!"`{key}:`"
  | .emptyInput => Token.Kind.endOfInput.describe

end Cause

end SyntaxError

/-- An error of grammar and where it stands. -/
structure SyntaxError where
  span : Span
  cause : SyntaxError.Cause
deriving DecidableEq

namespace SyntaxError

/-- The code of an error. -/
def code (e : SyntaxError) : ErrorCode := e.cause.code

/-- An error in words. -/
def message (e : SyntaxError) : String :=
  match e.cause.expected? with
  | some expected => s!"{e.cause.text}: expected {expected}, found {e.cause.found}"
  | none => e.cause.text

/-- An error as its reader sees it. -/
def diagnostic (e : SyntaxError) : Diagnostic :=
  let label := match e.cause.expected? with
    | some expected => s!"expected {expected}"
    | none => e.cause.text
  let d := (Diagnostic.error e.code e.message).withLabel e.span label
  match e.cause with
  | .unclosed _ opened _ => d.withSecondaryLabel opened "opened here"
  | .nestingTooDeep .. | .chainTooLong .. =>
    d.withHelp "split the program into smaller pieces or raise the limit"
  | .duplicateKey _ => d.withNote "each named argument may appear once per call"
  | _ => d

end SyntaxError

/-- Why a list of tokens is no program. -/
inductive ParseFailure where
  | grammar (error : SyntaxError)
  | refused (rejection : Rejection)
deriving DecidableEq

namespace ParseFailure

/-- Where a failure stands. -/
def span : ParseFailure → Span
  | .grammar e => e.span
  | .refused r => r.span

/-- A failure as its reader sees it. -/
def diagnostic : ParseFailure → Diagnostic
  | .grammar e => e.diagnostic
  | .refused r => r.diagnostic

end ParseFailure

end UiScript
