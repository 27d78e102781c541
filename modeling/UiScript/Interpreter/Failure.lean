/-
Why a source comes to nothing: it has no tokens, its tokens are no program,
or the program cannot be executed. Only the first failure is ever told.
-/
import UiScript.Execution.Failure
import UiScript.Program.Failure
import UiScript.Token.Failure

namespace UiScript

/-- Why a source comes to nothing. -/
inductive Failure where
  | lexical (error : LexicalError)
  | parsing (failure : ParseFailure)
  | execution (error : ExecutionError)
deriving DecidableEq

/-- The word for a phase. -/
def Phase.text : Phase → String
  | .lexing => "lex"
  | .parsing => "parse"
  | .security => "security"
  | .execution => "execution"

namespace Failure

/-- The phase in which a failure arose. -/
def phase : Failure → Phase
  | .lexical _ => .lexing
  | .parsing (.grammar _) => .parsing
  | .parsing (.refused _) => .security
  | .execution _ => .execution

/-- The code of a failure. -/
def code : Failure → ErrorCode
  | .lexical e => e.code
  | .parsing (.grammar e) => e.code
  | .parsing (.refused r) => r.code
  | .execution e => e.code

/-- A failure in words. -/
def message : Failure → String
  | .lexical e => e.message
  | .parsing (.grammar e) => e.message
  | .parsing (.refused r) => r.message
  | .execution e => e.message

/-- Where a failure stands, if that is known. -/
def span? : Failure → Option Span
  | .lexical e => some e.span
  | .parsing failure => some failure.span
  | .execution e => e.span

/-- A failure as its reader sees it. -/
def diagnostic : Failure → Diagnostic
  | .lexical e => e.diagnostic
  | .parsing failure => failure.diagnostic
  | .execution e => e.diagnostic

/-- Whether the policy refused something. -/
def isSecurity (f : Failure) : Bool := f.phase == .security

end Failure

end UiScript
