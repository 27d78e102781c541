/-
Why a program that was read cannot be executed. A failure is a cause, and
as far as they are known the call that failed and the blocks around it.
Neither is ever replaced once it is set, so the innermost one stays.
-/
import UiScript.Diagnostic.Basic
import UiScript.Value

namespace UiScript

namespace ExecutionError

/-- The causes of failed executions. -/
inductive Cause where
  | unknownOperation (name : String)
  /-- The name exists, but not for such a receiver. -/
  | noSuchMethod (method receiver : String)
  | wrongCount (method : String) (expected got : Nat)
  | wrongType (method arg expected found : String)
  | missingArgument (method arg : String)
  | unexpectedArgument (method arg : String)
  | blockNotAccepted (method : String)
  | invalidValue (method arg reason : String)
deriving DecidableEq

namespace Cause

/-- The code of a cause. -/
def code : Cause → ErrorCode
  | .unknownOperation _ => .unknownOperation
  | .noSuchMethod .. => .noSuchMethod
  | .wrongCount .. => .wrongCount
  | .wrongType .. => .wrongType
  | .missingArgument .. => .missingArgument
  | .unexpectedArgument .. => .unexpectedArgument
  | .blockNotAccepted _ => .blockNotAccepted
  | .invalidValue .. => .invalidValue

/-- A cause in words. -/
def message : Cause → String
  | .unknownOperation name => s!"unknown operation `{name}`"
  | .noSuchMethod method receiver => s!"`{method}` cannot be called on {receiver}"
  | .wrongCount method expected got =>
    s!"`{method}` takes {expected} argument(s) but {got} were supplied"
  | .wrongType method arg expected found =>
    s!"`{method}` expects {expected} for `{arg}`, found {found}"
  | .missingArgument method arg => s!"`{method}` requires argument `{arg}`"
  | .unexpectedArgument method arg => s!"`{method}` does not accept argument `{arg}`"
  | .blockNotAccepted method => s!"`{method}` does not take a block"
  | .invalidValue method arg reason => s!"invalid value for `{arg}` in `{method}`: {reason}"

/-- What is written under the call that failed. -/
def label : Cause → String
  | .unknownOperation _ => "not offered by this context"
  | .noSuchMethod .. => "method not found"
  | .wrongCount .. => "wrong number of arguments"
  | .wrongType .. => "wrong argument type"
  | .missingArgument .. => "missing argument"
  | .unexpectedArgument .. => "unexpected argument"
  | .blockNotAccepted _ => "block not allowed here"
  | .invalidValue .. => "value rejected"

/-- A wrong type, with the type of what was found. -/
def foundValue (method arg expected : String) (found : Value) : Cause :=
  .wrongType method arg expected found.typeName

end Cause

end ExecutionError

/-- How a receiver is named that is a single element. -/
def elementReceiver : String := "a node"

/-- A failed execution. -/
structure ExecutionError where
  cause : ExecutionError.Cause
  /-- The innermost call that failed. -/
  span : Option Span
  /-- The blocks around that call. -/
  scope : Option String
deriving DecidableEq

namespace ExecutionError

/-- A failure that is not located yet. -/
def of (cause : Cause) : ExecutionError := ⟨cause, none, none⟩

/-- The failure, located at a call unless it is located already. -/
def withSpan (e : ExecutionError) (span : Span) : ExecutionError :=
  { e with span := some (e.span.getD span) }

/-- The failure, inside the blocks of `scope` unless they are known already. -/
def within (e : ExecutionError) (scope : String) : ExecutionError :=
  { e with scope := some (e.scope.getD scope) }

/-- The code of a failure. -/
def code (e : ExecutionError) : ErrorCode := e.cause.code

/-- A failure in words. -/
def message (e : ExecutionError) : String := e.cause.message

/-- A failure as its reader sees it. -/
def diagnostic (e : ExecutionError) : Diagnostic :=
  let plain := Diagnostic.error e.code e.message
  let labelled := match e.span with
    | some span => plain.withLabel span e.cause.label
    | none => plain
  let placed := match e.scope with
    | some scope => labelled.withNote s!"inside `{scope}`"
    | none => labelled
  match e.cause with
  | .unknownOperation _ =>
    placed.withHelp "only operations offered by the host context can be called"
  | .noSuchMethod _ receiver =>
    if receiver = elementReceiver then
      placed.withHelp "this name is an operation; call it on its own line"
    else placed
  | _ => placed

end ExecutionError

end UiScript
