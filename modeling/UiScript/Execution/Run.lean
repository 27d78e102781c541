/-
Executing programs. A call evaluates its receiver, then its arguments from
left to right, then the statements of its block, and is dispatched last: an
operation if it has no receiver, a modifier if its receiver is an element,
and the modifier on each element in turn if its receiver is a fragment. The
first failure ends the execution. It is located at the innermost call that
failed, inside the blocks around that call.

# Main statements

* `evaluateStatements_nil`, `evaluateStatements_cons` — statements are
  executed in order, and what they contribute is strung together.
-/
import UiScript.Execution.Table

namespace UiScript

/-- The calls whose blocks surround a statement, the innermost one first. -/
structure Scope where
  owners : List String
deriving DecidableEq, Inhabited

namespace Scope

/-- Outside every block. -/
def root : Scope := ⟨[]⟩

/-- The block of a call. -/
def child (s : Scope) (owner : String) : Scope := ⟨owner :: s.owners⟩

/-- How many blocks surround it. -/
def depth (s : Scope) : Nat := s.owners.length

/-- Whether no block surrounds it. -/
def isRoot (s : Scope) : Bool := s.owners.isEmpty

/-- The owners of the blocks, from the outside in. -/
def path (s : Scope) : String := " > ".intercalate s.owners.reverse

theorem isRoot_child (s : Scope) (owner : String) : (s.child owner).isRoot = false := by
  simp [isRoot, child]

end Scope

namespace Execution

variable {σ : Type}

-- ================================================================ failures

/-- The action with a change to its failure. -/
def adaptFailure {α : Type} (f : ExecutionError → ExecutionError) (action : Action σ α) :
    Action σ α :=
  ExceptT.adapt f action

/-- Fails with a cause. -/
def failWith {α : Type} (cause : ExecutionError.Cause) : Action σ α := throw (.of cause)

/-- A failure of a statement is inside the blocks around the statement. -/
def insideScope {α : Type} (scope : Scope) (action : Action σ α) : Action σ α :=
  adaptFailure (fun e => if scope.isRoot then e else e.within scope.path) action

-- ================================================================ dispatch

/-- How messages name the receiver of a call. -/
def describeReceiver : Value → String
  | .element _ => elementReceiver
  | .nil => "nil"
  | value => "a " ++ value.typeName

/-- Why a name is no modifier for a receiver. -/
def notAModifier (table : Table σ) (name : String) (receiver : Value) : ExecutionError.Cause :=
  if table.hasOperation name || table.hasModifier name then
    .noSuchMethod name (describeReceiver receiver)
  else .unknownOperation name

/-- A modifier on each of several elements, in order; what the results
contribute is strung together. -/
def applyEach (modifier : Modifier σ) (inv : Invocation) : List Element → Action σ (List Element)
  | [] => pure []
  | e :: es => do
    let value ← modifier e inv
    let rest ← applyEach modifier inv es
    pure (value.elements ++ rest)

/-- Hands an invocation to its handler. -/
def dispatch (table : Table σ) (receiver : Option Value) (inv : Invocation) : Action σ Value :=
  match receiver with
  | none =>
    match table.operation? inv.method with
    | some operation => operation inv
    | none =>
      if table.hasModifier inv.method then failWith (.noSuchMethod inv.method "the top level")
      else failWith (.unknownOperation inv.method)
  | some value =>
    match value, table.modifier? inv.method with
    | .element e, some modifier => modifier e inv
    | .fragment es, some modifier => Value.fragment <$> applyEach modifier inv es
    | value, _ => failWith (notAModifier table inv.method value)

-- ============================================================== evaluation

/-- An evaluated argument, with its key if it is named. -/
abbrev EvaluatedArgument := Option String × Value

/-- The invocation of a call whose parts are evaluated. -/
def invocationOf (method : String) (args : List EvaluatedArgument)
    (children : Option (List Element)) (span : Span) : Invocation where
  method := method
  positional := args.filterMap fun
    | (none, value) => some value
    | (some _, _) => none
  named := args.filterMap fun
    | (none, _) => none
    | (some key, value) => some (key, value)
  children := children
  span := span

mutual
/-- The value of an expression. -/
def evaluate (table : Table σ) (scope : Scope) : Expr → Action σ Value
  | .literal value _ => pure (.ofLiteral value)
  | .call ⟨receiver, method, args, block, span⟩ => do
    let receiver ← (match receiver with
      | some r => some <$> evaluate table scope r
      | none => pure none)
    let args ← evaluateArguments table scope args
    let children ← (match block with
      | some ⟨statements, _⟩ => some <$> evaluateStatements table (scope.child method) statements
      | none => pure none)
    adaptFailure (·.withSpan span)
      (dispatch table receiver (invocationOf method args children span))
  | .sequence ⟨statements, _⟩ => Value.fragment <$> evaluateStatements table scope statements

/-- The values of arguments, from left to right. -/
def evaluateArguments (table : Table σ) (scope : Scope) :
    List Argument → Action σ (List EvaluatedArgument)
  | [] => pure []
  | .positional value :: args => do
    let value ← evaluate table scope value
    let rest ← evaluateArguments table scope args
    pure ((none, value) :: rest)
  | .named key value _ :: args => do
    let value ← evaluate table scope value
    let rest ← evaluateArguments table scope args
    pure ((some key, value) :: rest)

/-- What statements contribute, in order. -/
def evaluateStatements (table : Table σ) (scope : Scope) :
    List Expr → Action σ (List Element)
  | [] => pure []
  | statement :: statements => do
    let value ← insideScope scope (evaluate table scope statement)
    let rest ← evaluateStatements table scope statements
    pure (value.elements ++ rest)
end

/-- What a program comes to. -/
def execute (table : Table σ) (program : Expr) : Action σ Value := evaluate table .root program

-- ==================================================================== laws

theorem evaluateStatements_nil (table : Table σ) (scope : Scope) :
    evaluateStatements table scope [] = pure [] := by
  rw [evaluateStatements]

theorem evaluateStatements_cons (table : Table σ) (scope : Scope) (e : Expr) (es : List Expr) :
    evaluateStatements table scope (e :: es) = (do
      let value ← insideScope scope (evaluate table scope e)
      let rest ← evaluateStatements table scope es
      pure (value.elements ++ rest)) := by
  rw [evaluateStatements]

end Execution

end UiScript
