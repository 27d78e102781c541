/-
What actions do, state by state, and evaluation by the parts of a call.

# Main statements

* `run_bind`: the second action is run from where the first one ends, and
  not at all if that fails.
* `adaptFailure_bind`: changing failures commutes with doing one thing after
  the other.
* `evaluate_call`, `evaluateArguments_cons`: a call by its parts, and
  arguments one by one.
* `evaluateStatements_append`: statements in two batches.
-/
import UiScript.Execution.Run

namespace UiScript.Execution

variable {σ α β γ : Type}

-- ====================================================================== runs

/-- Two actions are the same if they are the same from each state. -/
theorem run_ext {x y : Action σ α} (h : ∀ s, x.run s = y.run s) : x = y := funext h

theorem run_pure (a : α) (s : σ) : (pure a : Action σ α).run s = (.ok a, s) := rfl

theorem run_failWith (cause : ExecutionError.Cause) (s : σ) :
    (failWith cause : Action σ α).run s = (.error (.of cause), s) := rfl

/-- The second action is run from where the first one ends, and not at all if
that fails. Every run below is told by this equation, state by state. -/
theorem run_bind (x : Action σ α) (f : α → Action σ β) (s : σ) :
    (x >>= f).run s =
      match x.run s with
      | (.ok a, t) => (f a).run t
      | (.error e, t) => (.error e, t) := by
  rw [ExceptT.run_bind]
  rcases hx : x.run s with ⟨e | a, t⟩
  · simp [bind, StateT.bind, hx]
    rfl
  · simp [bind, StateT.bind, hx]

theorem run_map (f : α → β) (x : Action σ α) (s : σ) :
    (f <$> x).run s = ((x.run s).1.map f, (x.run s).2) := by
  show ((x >>= fun a => pure (f a)) : Action σ β).run s = _
  rw [run_bind]
  rcases x.run s with ⟨_ | _, t⟩ <;> rfl

/-- Changing a failure leaves the state alone, and a success, too. -/
theorem run_adaptFailure (f : ExecutionError → ExecutionError) (x : Action σ α) (s : σ) :
    (adaptFailure f x).run s = ((x.run s).1.mapError f, (x.run s).2) := rfl

/-- A check neither looks at the state nor changes it. -/
theorem run_ofChecked (result : Checked α) (s : σ) :
    (Action.ofChecked result : Action σ α).run s = (result, s) := rfl

/-- Both actions succeed if one after the other does. -/
theorem exists_of_bind_ok {x : Action σ α} {f : α → Action σ β} {s : σ} {b : β}
    (h : ((x >>= f).run s).1 = .ok b) : ∃ a t, x.run s = (.ok a, t) ∧ ((f a).run t).1 = .ok b := by
  rw [run_bind] at h
  rcases hx : x.run s with ⟨e | a, t⟩
  · rw [hx] at h
    cases h
  · rw [hx] at h
    exact ⟨a, t, rfl, h⟩

/-- A success that something is made of was a success before. -/
theorem exists_of_map_ok {f : α → β} {x : Action σ α} {s : σ} {b : β}
    (h : ((f <$> x).run s).1 = .ok b) : ∃ a, (x.run s).1 = .ok a ∧ f a = b := by
  rw [run_map] at h
  cases hx : (x.run s).1 with
  | error e =>
    rw [hx] at h
    cases h
  | ok a =>
    rw [hx] at h
    exact ⟨a, rfl, Except.ok.inj h⟩

/-- Changing failures makes no success of any of them. -/
theorem ok_of_adaptFailure {f : ExecutionError → ExecutionError} {x : Action σ α} {s : σ} {a : α}
    (h : ((adaptFailure f x).run s).1 = .ok a) : (x.run s).1 = .ok a := by
  rw [run_adaptFailure] at h
  cases hx : (x.run s).1 with
  | error e =>
    rw [hx] at h
    cases h
  | ok b =>
    rw [hx] at h
    exact h

-- ================================================================== failures

section Failures

variable (f g : ExecutionError → ExecutionError)

@[simp] theorem adaptFailure_pure (a : α) :
    adaptFailure f (pure a : Action σ α) = pure a := rfl

/-- Changing failures commutes with doing one thing after the other. So a
change that is made on the way out of a whole may be made on the way out of
its parts. -/
theorem adaptFailure_bind (x : Action σ α) (k : α → Action σ β) :
    adaptFailure f (x >>= k) = (adaptFailure f x >>= fun a => adaptFailure f (k a)) := by
  refine run_ext fun s => ?_
  rw [run_adaptFailure, run_bind, run_bind, run_adaptFailure]
  rcases x.run s with ⟨_ | _, t⟩ <;> rfl

/-- It does not matter whether failures are changed before or after something
is made of a success. -/
theorem adaptFailure_map (h : α → β) (x : Action σ α) :
    adaptFailure f (h <$> x) = h <$> adaptFailure f x := by
  refine run_ext fun s => ?_
  rw [run_adaptFailure, run_map, run_map, run_adaptFailure]
  rcases x.run s with ⟨_ | _, t⟩ <;> rfl

theorem adaptFailure_comp (x : Action σ α) :
    adaptFailure f (adaptFailure g x) = adaptFailure (f ∘ g) x := by
  refine run_ext fun s => ?_
  rw [run_adaptFailure, run_adaptFailure, run_adaptFailure]
  rcases x.run s with ⟨_ | _, t⟩ <;> rfl

theorem adaptFailure_id (x : Action σ α) : adaptFailure id x = x := by
  refine run_ext fun s => ?_
  rw [run_adaptFailure]
  rcases hrun : x.run s with ⟨_ | _, t⟩ <;> rfl

end Failures

-- ================================================================== dispatch

section Dispatch

variable {table : Table σ} {inv : Invocation}

/-- Without a receiver, a name that has an operation is looked up there. -/
theorem dispatch_operation {operation : Operation σ}
    (h : table.operation? inv.method = some operation) :
    dispatch table none inv = operation inv := by
  simp only [dispatch, h]

/-- Without a receiver, a name that has none fails, and the cause tells
whether there is a modifier of the name. -/
theorem dispatch_no_operation (h : table.operation? inv.method = none) :
    dispatch table none inv =
      failWith (if table.hasModifier inv.method then .noSuchMethod inv.method "the top level"
        else .unknownOperation inv.method) := by
  simp only [dispatch, h]
  split <;> rfl

/-- On an element, a name that has a modifier is looked up there. -/
theorem dispatch_element {modifier : Modifier σ} (h : table.modifier? inv.method = some modifier)
    (e : Element) : dispatch table (some (.element e)) inv = modifier e inv := by
  simp only [dispatch, h]

/-- On a fragment, a modifier is applied to each of the elements, from left to
right. -/
theorem dispatch_fragment {modifier : Modifier σ} (h : table.modifier? inv.method = some modifier)
    (es : List Element) :
    dispatch table (some (.fragment es)) inv
      = Value.fragment <$> applyEach modifier inv es := by
  simp only [dispatch, h]

/-- On a receiver, a name without a modifier fails, whatever the receiver is. -/
theorem dispatch_no_modifier (h : table.modifier? inv.method = none) (value : Value) :
    dispatch table (some value) inv = failWith (notAModifier table inv.method value) := by
  cases value <;> simp only [dispatch, h]

/-- Scalars have no modifiers, registered or not. -/
theorem dispatch_scalar {value : Value} (h : value.isRenderable = false) :
    dispatch table (some value) inv = failWith (notAModifier table inv.method value) := by
  cases value with
  | element e => cases h
  | fragment es => cases h
  | _ => rfl

end Dispatch

-- =================================================================== parts

variable (table : Table σ) (scope : Scope)

/-- The value of a receiver, if there is one. -/
def evaluateReceiver : Option Expr → Action σ (Option Value)
  | none => pure none
  | some r => some <$> evaluate table scope r

/-- What the block of a call comes to, if there is one. -/
def evaluateBlock (owner : String) : Option Block → Action σ (Option (List Element))
  | none => pure none
  | some b => some <$> evaluateStatements table (scope.child owner) b.statements

/-- A call by its parts: receiver, arguments, block, and then the handler. The
block is evaluated in the scope of the call, the receiver and the arguments in
that around it. -/
theorem evaluate_call (c : Call) :
    evaluate table scope (.call c) = (do
      let receiver ← evaluateReceiver table scope c.receiver
      let args ← evaluateArguments table scope c.args
      let children ← evaluateBlock table scope c.method c.block
      adaptFailure (·.withSpan c.span)
        (dispatch table receiver (invocationOf c.method args children c.span))) := by
  obtain ⟨receiver, method, args, block, span⟩ := c
  rcases receiver with _ | r <;> rcases block with _ | ⟨statements, s⟩ <;> rw [evaluate] <;> rfl

/-- Arguments are evaluated from left to right; a key changes nothing of that. -/
theorem evaluateArguments_cons (a : Argument) (args : List Argument) :
    evaluateArguments table scope (a :: args) = (do
      let value ← evaluate table scope a.value
      let rest ← evaluateArguments table scope args
      pure ((a.key?, value) :: rest)) := by
  cases a <;> rw [evaluateArguments] <;> rfl

/-- A program of several statements makes one fragment of what they come to. -/
theorem evaluate_sequence (b : Block) :
    evaluate table scope (.sequence b)
      = Value.fragment <$> evaluateStatements table scope b.statements := by
  obtain ⟨statements, span⟩ := b
  rw [evaluate]

/-- Statements in two batches come to what the batches come to. The second
batch starts from the state that the first one leaves, and not at all if the
first one fails. -/
theorem evaluateStatements_append (es fs : List Expr) :
    evaluateStatements table scope (es ++ fs) = (do
      let first ← evaluateStatements table scope es
      let rest ← evaluateStatements table scope fs
      pure (first ++ rest)) := by
  induction es with
  | nil =>
    rw [evaluateStatements_nil, pure_bind, List.nil_append]
    exact (bind_pure _).symm
  | cons e es ih =>
    rw [List.cons_append, evaluateStatements_cons, evaluateStatements_cons, ih]
    simp only [bind_assoc, pure_bind, List.append_assoc]

end UiScript.Execution
