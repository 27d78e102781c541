/-
Interpreters: from a source to a value. An interpreter is a configuration
and perhaps a list of names that is to be used instead of what a table
offers; it keeps nothing from one source to the next. Nothing is executed
unless the whole source can be read.

# Main statements

* `interpret_of_parse_error` — what cannot be read leaves the state of the
  host alone.
-/
import UiScript.Config
import UiScript.Execution.Run
import UiScript.Interpreter.Failure
import UiScript.Token.OfSource

namespace UiScript

/-- What sources are run under. -/
structure Interpreter where
  config : Config
  /-- The names that may be called, if they are not to be taken from the table. -/
  allowlist : Option (List String)
deriving DecidableEq

namespace Interpreter

variable {σ : Type}

/-- The interpreter with the standard configuration. -/
def standard : Interpreter := ⟨.standard, none⟩

-- ================================================================ policies

/-- The policy for sources that are not run: the interpreter's own names, if
it has any. -/
def sourcePolicy (i : Interpreter) : Policy :=
  match i.allowlist, i.config.denylistOnly with
  | some names, false => .listing names
  | _, _ => .denylistOnly

/-- The policy for sources that are run against a table. -/
def policyFor (i : Interpreter) (table : Table σ) : Policy :=
  if i.config.denylistOnly then .denylistOnly
  else .listing (i.allowlist.getD table.names)

-- ================================================================= sources

/-- The tokens of a source. -/
def tokenize (source : String) : Except Failure (List Token) :=
  (Token.ofSource source).mapError .lexical

/-- The program of a source, under a policy. -/
def parseUnder (i : Interpreter) (policy : Policy) (source : String) : Except Failure Expr := do
  let tokens ← tokenize source
  let rules : ParseRules := ⟨policy, i.config.options⟩
  (rules.parse tokens).mapError .parsing

/-- The program of a source that is not run. -/
def parse (i : Interpreter) (source : String) : Except Failure Expr :=
  i.parseUnder i.sourcePolicy source

/-- What a source comes to, and the state of the host after it was run. -/
def interpret (i : Interpreter) (table : Table σ) (source : String) (state : σ) :
    Except Failure Value × σ :=
  match i.parseUnder (i.policyFor table) source with
  | .error failure => (.error failure, state)
  | .ok program =>
    let (result, after) := (Execution.execute table program).run state
    (result.mapError .execution, after)

/-- What a source comes to, as one element. -/
def render (i : Interpreter) (table : Table σ) (source : String) (state : σ) :
    Except Failure Element × σ :=
  let (result, after) := i.interpret table source state
  (result.map Value.renderElement, after)

/-- What cannot be read leaves the state of the host alone. Nothing is
executed before all of a source has been read. -/
theorem interpret_of_parse_error {i : Interpreter} {table : Table σ} {source : String}
    {failure : Failure} (h : i.parseUnder (i.policyFor table) source = .error failure) (state : σ) :
    i.interpret table source state = (.error failure, state) := by
  rw [interpret, h]

end Interpreter

end UiScript
