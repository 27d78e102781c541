/-
Executing the same program further on. If handlers do not care where a call
stands, a moved program does what the program does, and fails as it fails,
with the call that failed moved along.

# Main statements

* `Table.Movable`: what is asked of the handlers.
* `evaluate_shift`: evaluating what is moved is evaluating, with the failure
  moved.
* `execute_rootOf_append`: a program after another one.
-/
import UiScript.Proofs.Execution.Actions
import UiScript.Proofs.Program.Walks
import UiScript.Proofs.Shift

namespace UiScript

/-- The same invocation, further on. -/
def Invocation.shift (d : Nat) (inv : Invocation) : Invocation :=
  { inv with span := inv.span.shift d }

namespace ExecutionError

variable (d : Nat) (e : ExecutionError)

/-- A failure may be given its span before or after both are moved. -/
theorem shift_withSpan (span : Span) :
    (e.shift d).withSpan (span.shift d) = (e.withSpan span).shift d := by
  obtain ⟨cause, _ | s, scope⟩ := e <;> rfl

/-- The scope of a failure does not move. -/
theorem shift_within (scope : String) : (e.shift d).within scope = (e.within scope).shift d := rfl

/-- What is located nowhere cannot be moved. -/
theorem shift_of_span_eq_none {e : ExecutionError} (h : e.span = none) : e.shift d = e := by
  obtain ⟨cause, span, scope⟩ := e
  cases h
  rfl

end ExecutionError

variable {σ : Type}

/-- Handlers that do not care where a call stands: for a call further on they
do the same, and fail in the same way, further on. -/
structure Table.Movable (table : Table σ) : Prop where
  operation : ∀ {name : String} {operation : Operation σ}, table.operation? name = some operation →
    ∀ (d : Nat) (inv : Invocation), operation (inv.shift d)
      = Execution.adaptFailure (ExecutionError.shift d) (operation inv)
  modifier : ∀ {name : String} {modifier : Modifier σ}, table.modifier? name = some modifier →
    ∀ (d : Nat) (e : Element) (inv : Invocation), modifier e (inv.shift d)
      = Execution.adaptFailure (ExecutionError.shift d) (modifier e inv)

namespace Execution

variable (d : Nat)

-- ================================================================= dispatch

/-- A failure without a span has nothing to be moved. -/
theorem adaptFailure_shift_failWith {α : Type} (cause : ExecutionError.Cause) :
    adaptFailure (ExecutionError.shift d) (failWith cause : Action σ α) = failWith cause := rfl

/-- Failures may be given their spans before or after they are moved. -/
theorem adaptFailure_shift_withSpan {α : Type} (span : Span) (x : Action σ α) :
    adaptFailure (·.withSpan (span.shift d)) (adaptFailure (ExecutionError.shift d) x)
      = adaptFailure (ExecutionError.shift d) (adaptFailure (·.withSpan span) x) := by
  rw [adaptFailure_comp, adaptFailure_comp]
  exact congrArg (adaptFailure · x) (funext fun e => e.shift_withSpan d span)

/-- Being inside blocks has nothing to do with standing further on. -/
theorem insideScope_adaptFailure_shift {α : Type} (scope : Scope) (x : Action σ α) :
    insideScope scope (adaptFailure (ExecutionError.shift d) x)
      = adaptFailure (ExecutionError.shift d) (insideScope scope x) := by
  unfold insideScope
  rw [adaptFailure_comp, adaptFailure_comp]
  refine congrArg (adaptFailure · x) (funext fun e => ?_)
  show (if scope.isRoot then e.shift d else (e.shift d).within scope.path)
    = (if scope.isRoot then e else e.within scope.path).shift d
  split
  · rfl
  · exact e.shift_within d scope.path

variable {table : Table σ} (hmovable : table.Movable)
include hmovable

/-- A modifier on each element of a fragment, further on. -/
theorem applyEach_shift {name : String} {modifier : Modifier σ}
    (h : table.modifier? name = some modifier) (inv : Invocation) (es : List Element) :
    applyEach modifier (inv.shift d) es
      = adaptFailure (ExecutionError.shift d) (applyEach modifier inv es) := by
  induction es with
  | nil => rfl
  | cons e es ih =>
    rw [applyEach, applyEach, hmovable.modifier h, ih]
    simp only [adaptFailure_bind, adaptFailure_pure]

/-- A dispatch of a moved call is the dispatch, with its failure moved: the
handlers do not care, and the failures of the dispatch itself have no span
yet. -/
theorem dispatch_shift (receiver : Option Value) (inv : Invocation) :
    dispatch table receiver (inv.shift d)
      = adaptFailure (ExecutionError.shift d) (dispatch table receiver inv) := by
  have hmethod : (inv.shift d).method = inv.method := rfl
  cases receiver with
  | none =>
    cases hop : table.operation? inv.method with
    | some operation =>
      rw [dispatch_operation (hmethod ▸ hop), dispatch_operation hop]
      exact hmovable.operation hop d inv
    | none =>
      rw [dispatch_no_operation (hmethod ▸ hop), dispatch_no_operation hop]
      rfl
  | some value =>
    cases hmod : table.modifier? inv.method with
    | none =>
      rw [dispatch_no_modifier (hmethod ▸ hmod), dispatch_no_modifier hmod]
      rfl
    | some modifier =>
      cases value with
      | element e =>
        rw [dispatch_element (hmethod ▸ hmod), dispatch_element hmod]
        exact hmovable.modifier hmod d e inv
      | fragment es =>
        rw [dispatch_fragment (hmethod ▸ hmod), dispatch_fragment hmod, adaptFailure_map,
          applyEach_shift d hmovable hmod]
      | _ => rw [dispatch_scalar rfl, dispatch_scalar rfl, adaptFailure_shift_failWith, hmethod]

-- ================================================================ evaluation

omit hmovable in
/-- Moved arguments come to what the arguments come to. -/
theorem evaluateArguments_shift {scope : Scope} {args : List Argument}
    (h : ∀ a ∈ args, evaluate table scope (a.value.shift d)
      = adaptFailure (ExecutionError.shift d) (evaluate table scope a.value)) :
    evaluateArguments table scope (args.map (Argument.shift d))
      = adaptFailure (ExecutionError.shift d) (evaluateArguments table scope args) := by
  induction args with
  | nil => rfl
  | cons a args ih =>
    obtain ⟨hthis, hrest⟩ := List.forall_mem_cons.1 h
    rw [List.map_cons, evaluateArguments_cons, evaluateArguments_cons, a.value_shift, a.key?_shift,
      hthis, ih hrest]
    simp only [adaptFailure_bind, adaptFailure_pure]

omit hmovable in
/-- Moved statements come to what the statements come to, in the same scope. -/
theorem evaluateStatements_shift {scope : Scope} {es : List Expr}
    (h : ∀ e ∈ es, evaluate table scope (e.shift d)
      = adaptFailure (ExecutionError.shift d) (evaluate table scope e)) :
    evaluateStatements table scope (es.map (Expr.shift d))
      = adaptFailure (ExecutionError.shift d) (evaluateStatements table scope es) := by
  induction es with
  | nil => rfl
  | cons e es ih =>
    obtain ⟨hthis, hrest⟩ := List.forall_mem_cons.1 h
    rw [List.map_cons, evaluateStatements_cons, evaluateStatements_cons, hthis, ih hrest,
      insideScope_adaptFailure_shift]
    simp only [adaptFailure_bind, adaptFailure_pure]

/-- Evaluating what is moved is evaluating, with the failure moved. The
induction is on the evaluation; each call moves its own failure along, and no
scope has a span. -/
theorem evaluate_shift (e : Expr) (scope : Scope) :
    evaluate table scope (e.shift d)
      = adaptFailure (ExecutionError.shift d) (evaluate table scope e) := by
  induction e using Expr.induct generalizing scope with
  | literal value span =>
    rw [Expr.shift, evaluate, evaluate, adaptFailure_pure]
  | sequence b ih =>
    rw [Expr.shift_sequence, evaluate_sequence, evaluate_sequence, adaptFailure_map]
    exact congrArg _ (evaluateStatements_shift d fun e he => ih e he scope)
  | call c hreceiver hargs hblock =>
    have hreceiver : evaluateReceiver table scope (c.receiver.map (Expr.shift d))
        = adaptFailure (ExecutionError.shift d) (evaluateReceiver table scope c.receiver) := by
      cases hr : c.receiver with
      | none => rfl
      | some r =>
        show some <$> _ = adaptFailure _ (some <$> _)
        rw [hreceiver r hr scope, adaptFailure_map]
    have hblock : evaluateBlock table scope c.method (c.block.map (Block.shift d))
        = adaptFailure (ExecutionError.shift d) (evaluateBlock table scope c.method c.block) := by
      cases hb : c.block with
      | none => rfl
      | some b =>
        show some <$> _ = adaptFailure _ (some <$> _)
        rw [adaptFailure_map]
        exact congrArg _ (evaluateStatements_shift d fun e he => hblock b hb e he _)
    have hargs := evaluateArguments_shift d fun a ha => hargs a ha scope
    rw [Expr.shift_call, evaluate_call, evaluate_call]
    simp only [Call.shift, hreceiver, hargs, hblock, adaptFailure_bind]
    -- the parts come to the same values, so the dispatches differ in the span alone
    refine bind_congr fun receiver => bind_congr fun args => bind_congr fun children => ?_
    rw [← adaptFailure_shift_withSpan, ← dispatch_shift d hmovable]
    rfl

-- ================================================================== programs

omit hmovable

/-- Outside every block, failures of statements are left alone. -/
theorem insideScope_root {α : Type} (x : Action σ α) : insideScope .root x = x := adaptFailure_id x

/-- A program of at least two statements is a fragment of what they
contribute. -/
theorem execute_rootOf {es : List Expr} (h : 2 ≤ es.length) :
    execute table (ParseRules.rootOf es)
      = Value.fragment <$> evaluateStatements table .root es := by
  match es with
  | [] => cases h
  | [_] => exact absurd h (Nat.lt_irrefl 1)
  | first :: second :: rest => exact evaluate_sequence table .root _

/-- What a program contributes is what its statements do, however many it has. -/
theorem evaluateStatements_root {es : List Expr} (h : es ≠ []) :
    evaluateStatements table .root es
      = Value.elements <$> execute table (ParseRules.rootOf es) := by
  match es with
  | [] => exact absurd rfl h
  | [only] =>
    rw [evaluateStatements_cons, evaluateStatements_nil, insideScope_root]
    simp only [pure_bind, List.append_nil]
    exact (map_eq_pure_bind _ _).symm
  | first :: second :: rest =>
    have hlength : 2 ≤ (first :: second :: rest).length := Nat.le_add_left 2 rest.length
    rw [execute_rootOf hlength, ← comp_map]
    exact (id_map _).symm

include hmovable in
/-- A program after another one, further on: they are executed one after the
other, and what they contribute is strung together. -/
theorem execute_rootOf_append {es fs : List Expr} (hes : es ≠ []) (hfs : fs ≠ []) :
    execute table (ParseRules.rootOf (es ++ fs.map (Expr.shift d))) = (do
      let va ← execute table (ParseRules.rootOf es)
      let vb ← adaptFailure (ExecutionError.shift d) (execute table (ParseRules.rootOf fs))
      pure (.fragment (va.elements ++ vb.elements))) := by
  have hlength : 2 ≤ (es ++ fs.map (Expr.shift d)).length := by
    have hes := List.length_pos_iff.2 hes
    have hfs := List.length_pos_iff.2 hfs
    rw [List.length_append, List.length_map]
    omega
  rw [execute_rootOf hlength, evaluateStatements_append,
    evaluateStatements_shift d fun e _ => evaluate_shift d hmovable e .root,
    evaluateStatements_root hes, evaluateStatements_root hfs, adaptFailure_map]
  simp only [map_eq_pure_bind, bind_assoc, pure_bind]

end Execution

end UiScript
