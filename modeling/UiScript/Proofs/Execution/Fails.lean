/-
What a run that fails fails with. A failure comes from one dispatch, of one
call of the program; on its way out of the program it is told where that call
stands, and then which blocks are around it. A dispatch fails because its
handler fails, or because there is no handler in the role that is asked for.

# Main statements

* `Action.Fails.bind`: one thing after the other.
* `dispatch_unhandled`: what comes of a call without a handler.
* `dispatch_fails`: what a dispatch fails with.
* `evaluate_fails`: what an expression fails with, by its calls.
-/
import UiScript.Proofs.Execution.Actions
import UiScript.Proofs.Program.Walks

namespace UiScript

variable {σ α β : Type}

-- =================================================================== actions

/-- Whatever an action fails with has a property, whatever the state is that
it starts from. -/
def Action.Fails (x : Action σ α) (P : ExecutionError → Prop) : Prop :=
  ∀ s e, (x.run s).1 = .error e → P e

namespace Action.Fails

open Execution

variable {P : ExecutionError → Prop} {x : Action σ α}

theorem pure (a : α) : Fails (pure a : Action σ α) P := by
  intro s e he
  cases he

theorem failWith {cause : ExecutionError.Cause} (h : P (.of cause)) :
    Fails (Execution.failWith cause : Action σ α) P := by
  intro s e he
  cases he
  exact h

/-- What fails with something fails with anything that follows from it. -/
theorem mono {Q : ExecutionError → Prop} (h : Fails x P) (hPQ : ∀ e, P e → Q e) : Fails x Q := by
  intro s e he
  exact hPQ e (h s e he)

/-- The second action is only run if the first one does not fail. -/
theorem bind {f : α → Action σ β} (h : Fails x P) (hf : ∀ a, Fails (f a) P) :
    Fails (x >>= f) P := by
  intro s e he
  rw [run_bind] at he
  rcases hx : x.run s with ⟨e' | a, t⟩
  · rw [hx] at he
    cases he
    exact h s e (by rw [hx])
  · rw [hx] at he
    exact hf a t e he

theorem map {f : α → β} (h : Fails x P) : Fails (f <$> x) P := by
  intro s e he
  rw [run_map] at he
  cases hx : (x.run s).1 with
  | ok a =>
    rw [hx] at he
    cases he
  | error e' =>
    rw [hx] at he
    cases he
    exact h s e hx

/-- What is changed in a failure comes after the failure. -/
theorem adaptFailure {f : ExecutionError → ExecutionError} (h : Fails x fun e => P (f e)) :
    Fails (Execution.adaptFailure f x) P := by
  intro s e he
  rw [run_adaptFailure] at he
  cases hx : (x.run s).1 with
  | ok a =>
    rw [hx] at he
    cases he
  | error e' =>
    rw [hx] at he
    cases he
    exact h s e' hx

/-- A check fails as it does without any state. -/
theorem ofChecked {r : Checked α} (h : ∀ e, r = .error e → P e) :
    Fails (Action.ofChecked r : Action σ α) P := by
  intro s e he
  exact h e he

end Action.Fails

-- ================================================================== handlers

/-- Whatever the handlers of a table fail with has a property. -/
structure Table.FailsWith (table : Table σ) (P : ExecutionError → Prop) : Prop where
  operation : ∀ {name : String} {operation : Operation σ}, table.operation? name = some operation →
    ∀ inv : Invocation, (operation inv).Fails P
  modifier : ∀ {name : String} {modifier : Modifier σ}, table.modifier? name = some modifier →
    ∀ (e : Element) (inv : Invocation), (modifier e inv).Fails P

theorem Table.FailsWith.mono {table : Table σ} {P Q : ExecutionError → Prop}
    (h : table.FailsWith P) (hPQ : ∀ e, P e → Q e) : table.FailsWith Q where
  operation := fun hfound inv => (h.operation hfound inv).mono hPQ
  modifier := fun hfound e inv => (h.modifier hfound e inv).mono hPQ

/-- Whether there is a handler for calls of a name on such a receiver: an
operation if there is none, and a modifier if it is made of elements. -/
def Table.handles (table : Table σ) (name : String) : Option Value → Bool
  | none => table.hasOperation name
  | some value => value.isRenderable && table.hasModifier name

/-- On a receiver a name is handled if there is a modifier, and the receiver
can have it. -/
theorem Table.handles_some (table : Table σ) (name : String) (value : Value) :
    table.handles name (some value) = (value.isRenderable && table.hasModifier name) := rfl

/-- Without a receiver a name is handled by an operation. -/
theorem Table.exists_operation_of_handles {table : Table σ} {name : String}
    (h : table.handles name none = true) : ∃ operation, table.operation? name = some operation :=
  Option.isSome_iff_exists.1 h

/-- On a receiver a name is handled by a modifier. -/
theorem Table.exists_modifier_of_handles {table : Table σ} {name : String} {value : Value}
    (h : table.handles name (some value) = true) :
    value.isRenderable = true ∧ ∃ modifier, table.modifier? name = some modifier := by
  rw [Table.handles_some, Bool.and_eq_true] at h
  exact ⟨h.1, Option.isSome_iff_exists.1 h.2⟩

namespace Execution

variable {table : Table σ} {P : ExecutionError → Prop}

-- ================================================================== dispatch

/-- How messages name the receiver of a call, or say that there is none. -/
def describeTarget : Option Value → String
  | none => "the top level"
  | some value => describeReceiver value

/-- A call without a handler fails. What it blames depends on whether the name
is offered in any role at all, and on nothing else. -/
theorem dispatch_unhandled {receiver : Option Value} {inv : Invocation}
    (h : table.handles inv.method receiver = false) :
    dispatch table receiver inv =
      failWith (if (table.hasOperation inv.method || table.hasModifier inv.method) = true then
        .noSuchMethod inv.method (describeTarget receiver)
      else .unknownOperation inv.method) := by
  cases receiver with
  | none =>
    have hoperation : table.hasOperation inv.method = false := h
    rw [dispatch_no_operation (Table.operation?_eq_none_iff.2 hoperation), hoperation,
      Bool.false_or]
    rfl
  | some value =>
    by_cases hrenderable : value.isRenderable = true
    · have hmodifier : table.hasModifier inv.method = false := by
        rw [Table.handles_some, hrenderable, Bool.true_and] at h
        exact h
      rw [dispatch_no_modifier (Table.modifier?_eq_none_iff.2 hmodifier)]
      rfl
    · rw [dispatch_scalar (Bool.eq_false_iff.2 hrenderable)]
      rfl

/-- A fragment fails with what the modifier fails with on one of its elements. -/
theorem applyEach_fails {modifier : Modifier σ} {inv : Invocation}
    (h : ∀ e, (modifier e inv).Fails P) (es : List Element) :
    (applyEach modifier inv es).Fails P := by
  induction es with
  | nil => exact .pure []
  | cons e es ih => exact (h e).bind fun value => ih.bind fun rest => .pure _

/-- A dispatch fails with what a handler fails with, or for want of a handler.
The first is asked of the table, the second of the cause that a dispatch
itself gives. -/
theorem dispatch_fails {receiver : Option Value} {inv : Invocation} (hhandlers : table.FailsWith P)
    (hunhandled : table.handles inv.method receiver = false →
      (dispatch table receiver inv).Fails P) : (dispatch table receiver inv).Fails P := by
  by_cases hhandled : table.handles inv.method receiver = true
  · cases receiver with
    | none =>
      obtain ⟨operation, hoperation⟩ := Table.exists_operation_of_handles hhandled
      rw [dispatch_operation hoperation]
      exact hhandlers.operation hoperation inv
    | some value =>
      obtain ⟨hrenderable, modifier, hmodifier⟩ := Table.exists_modifier_of_handles hhandled
      cases value with
      | element e =>
        rw [dispatch_element hmodifier]
        exact hhandlers.modifier hmodifier e inv
      | fragment es =>
        rw [dispatch_fragment hmodifier]
        exact (applyEach_fails (fun e => hhandlers.modifier hmodifier e inv) es).map
      | _ => cases hrenderable
  · exact hunhandled (Bool.eq_false_iff.2 hhandled)

-- ================================================================ evaluation

/-- Arguments fail with what the value of one of them fails with. -/
theorem evaluateArguments_fails {scope : Scope} {args : List Argument}
    (h : ∀ a ∈ args, (evaluate table scope a.value).Fails P) :
    (evaluateArguments table scope args).Fails P := by
  induction args with
  | nil =>
    rw [evaluateArguments]
    exact .pure []
  | cons a args ih =>
    rw [evaluateArguments_cons]
    obtain ⟨hthis, hrest⟩ := List.forall_mem_cons.1 h
    exact hthis.bind fun value => (ih hrest).bind fun rest => .pure _

variable (hwithin : ∀ e scope, P e → P (e.within scope))
include hwithin

/-- Statements fail with what one of them fails with, told within their scope;
so what is claimed of a failure must survive that it is told further out. -/
theorem evaluateStatements_fails {scope : Scope} {es : List Expr}
    (h : ∀ e ∈ es, (evaluate table scope e).Fails P) :
    (evaluateStatements table scope es).Fails P := by
  induction es with
  | nil =>
    rw [evaluateStatements_nil]
    exact .pure []
  | cons e es ih =>
    rw [evaluateStatements_cons]
    obtain ⟨hthis, hrest⟩ := List.forall_mem_cons.1 h
    have hinside : (insideScope scope (evaluate table scope e)).Fails P := by
      refine .adaptFailure (hthis.mono fun e' he' => ?_)
      split
      · exact he'
      · exact hwithin e' _ he'
    exact hinside.bind fun value => (ih hrest).bind fun rest => .pure _

/-- What an expression fails with is what the dispatch of one of its calls
fails with, located at that call, if it makes no difference which blocks are
around the call. -/
theorem evaluate_fails (e : Expr) (scope : Scope)
    (h : ∀ c ∈ e.calls, ∀ receiver args children,
      (dispatch table receiver (invocationOf c.method args children c.span)).Fails
        fun e => P (e.withSpan c.span)) : (evaluate table scope e).Fails P := by
  induction e using Expr.induct generalizing scope with
  | literal value span =>
    rw [evaluate]
    exact .pure _
  | sequence b ih =>
    rw [evaluate_sequence]
    refine (evaluateStatements_fails hwithin fun e he => ih e he scope fun c hc => ?_).map
    exact h c (mem_calls_sequence.2 ⟨e, he, hc⟩)
  | call c hreceiver hargs hblock =>
    -- what is assumed of all calls is handed to the parts, and to the call itself
    obtain ⟨hinReceiver, hthis, hinArgs, hinBlock⟩ := forall_calls_call_iff.1 h
    have hreceivers : (evaluateReceiver table scope c.receiver).Fails P := by
      cases hr : c.receiver with
      | none => exact .pure none
      | some r => exact (hreceiver r hr scope (hinReceiver r hr)).map
    have hchildren : (evaluateBlock table scope c.method c.block).Fails P := by
      cases hb : c.block with
      | none => exact .pure none
      | some b =>
        exact (evaluateStatements_fails hwithin fun e he =>
          hblock b hb e he _ (hinBlock b hb e he)).map
    rw [evaluate_call]
    refine hreceivers.bind fun receiver => ?_
    refine (evaluateArguments_fails fun a ha => hargs a ha scope (hinArgs a ha)).bind fun args => ?_
    exact hchildren.bind fun children => .adaptFailure (hthis receiver args children)

end Execution

end UiScript
