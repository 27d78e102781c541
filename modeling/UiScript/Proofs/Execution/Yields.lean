/-
What comes out of a run that succeeds. An action yields a property if the
value that it answers with has it; a failure answers with nothing. What an
expression yields follows from what its literals, its statements and the
handlers of its calls do: by the time that a call is handed to its handler,
its parts have been evaluated, and each part stands against the value that it
came to.

# Main statements

* `Action.Yields.bind`: one thing after the other.
* `evaluate_yields`: a property of expressions and their values that literals,
  sequences and calls keep.
-/
import Mathlib.Data.List.Forall2
import UiScript.Proofs.Execution.Actions
import UiScript.Proofs.Program.Walks

namespace UiScript

variable {σ α β γ : Type}

-- =================================================================== actions

/-- Whatever comes out has a property, whatever the state is that the action
starts from. -/
def Action.Yields (x : Action σ α) (P : α → Prop) : Prop :=
  ∀ s a, (x.run s).1 = .ok a → P a

namespace Action.Yields

open Execution

variable {P : α → Prop} {Q : β → Prop} {x : Action σ α}

theorem pure {a : α} (h : P a) : Yields (pure a : Action σ α) P := by
  intro s b hb
  cases hb
  exact h

theorem failWith (cause : ExecutionError.Cause) :
    Yields (Execution.failWith cause : Action σ α) P := by
  intro s a ha
  cases ha

/-- What yields something yields anything that follows from it. -/
theorem mono {R : α → Prop} (h : Yields x P) (hPR : ∀ a, P a → R a) : Yields x R :=
  fun s a ha => hPR a (h s a ha)

/-- One thing after the other: the second one may use what the first one
yields. -/
theorem bind {f : α → Action σ β} (h : Yields x P) (hf : ∀ a, P a → Yields (f a) Q) :
    Yields (x >>= f) Q := by
  intro s b hb
  obtain ⟨a, t, hx, hb⟩ := exists_of_bind_ok hb
  exact hf a (h s a (by rw [hx])) t b hb

theorem map {f : α → β} (h : Yields x fun a => Q (f a)) : Yields (f <$> x) Q := by
  intro s b hb
  obtain ⟨a, hx, rfl⟩ := exists_of_map_ok hb
  exact h s a hx

theorem adaptFailure (h : Yields x P) (f : ExecutionError → ExecutionError) :
    Yields (Execution.adaptFailure f x) P :=
  fun s a ha => h s a (ok_of_adaptFailure ha)

/-- A check yields what it answers with. -/
theorem ofChecked {r : Checked α} (h : ∀ a, r = .ok a → P a) :
    Yields (Action.ofChecked r : Action σ α) P :=
  fun _ a ha => h a ha

end Action.Yields

-- ================================================================ evaluation

namespace Execution

variable {table : Table σ} {Q : Expr → Value → Prop}

/-- Arguments stand against what they came to: under the same key, a value
that the argument may come to. -/
def ArgumentsYield (Q : Expr → Value → Prop) (args : List Argument)
    (evaluated : List EvaluatedArgument) : Prop :=
  List.Forall₂ (fun a v => v.1 = a.key? ∧ Q a.value v.2) args evaluated

/-- Statements stand against the elements that they contribute. -/
def StatementsYield (Q : Expr → Value → Prop) (statements : List Expr) (es : List Element) : Prop :=
  ∃ values, List.Forall₂ Q statements values ∧ es = values.flatMap Value.elements

/-- The parts of a call stand against what they came to. -/
structure PartsYield (Q : Expr → Value → Prop) (c : Call) (receiver : Option Value)
    (args : List EvaluatedArgument) (children : Option (List Element)) : Prop where
  receiver : Option.Rel Q c.receiver receiver
  args : ArgumentsYield Q c.args args
  children : Option.Rel (fun b => StatementsYield Q b.statements) c.block children

/-- The positional arguments of the invocation are what those of the call came
to. -/
theorem ArgumentsYield.positional {c : Call} {evaluated : List EvaluatedArgument}
    (h : ArgumentsYield Q c.args evaluated) (children : Option (List Element)) :
    List.Forall₂ Q c.positional (invocationOf c.method evaluated children c.span).positional := by
  refine List.rel_filterMap ?_ h
  rintro a ⟨key, value⟩ ⟨rfl, hvalue⟩
  cases a with
  | positional => exact .some hvalue
  | named => exact .none

/-- The named arguments of the invocation have the keys of those of the call,
and are what those came to. -/
theorem ArgumentsYield.named {c : Call} {evaluated : List EvaluatedArgument}
    (h : ArgumentsYield Q c.args evaluated) (children : Option (List Element)) :
    List.Forall₂ (fun a v => v.1 = a.1 ∧ Q a.2 v.2) c.named
      (invocationOf c.method evaluated children c.span).named := by
  refine List.rel_filterMap ?_ h
  rintro a ⟨key, value⟩ ⟨rfl, hvalue⟩
  cases a with
  | positional => exact .none
  | named => exact .some ⟨rfl, hvalue⟩

/-- Arguments come to values that stand against them, one by one. -/
theorem evaluateArguments_yields {args : List Argument} {scope : Scope}
    (h : ∀ a ∈ args, Action.Yields (evaluate table scope a.value) (Q a.value)) :
    Action.Yields (evaluateArguments table scope args) (ArgumentsYield Q args) := by
  induction args with
  | nil =>
    rw [evaluateArguments]
    exact .pure .nil
  | cons a args ih =>
    rw [evaluateArguments_cons]
    obtain ⟨hthis, hrest⟩ := List.forall_mem_cons.1 h
    refine hthis.bind fun value hvalue => (ih hrest).bind fun rest hargs => ?_
    exact .pure (.cons ⟨rfl, hvalue⟩ hargs)

/-- Statements come to what their values contribute, strung together. -/
theorem evaluateStatements_yields {statements : List Expr} {scope : Scope}
    (h : ∀ e ∈ statements, Action.Yields (evaluate table scope e) (Q e)) :
    Action.Yields (evaluateStatements table scope statements) (StatementsYield Q statements) := by
  induction statements with
  | nil =>
    rw [evaluateStatements_nil]
    exact .pure ⟨[], .nil, rfl⟩
  | cons e statements ih =>
    rw [evaluateStatements_cons]
    obtain ⟨hthis, hrest⟩ := List.forall_mem_cons.1 h
    refine (hthis.adaptFailure _).bind fun value hvalue => (ih hrest).bind fun rest hrests => ?_
    obtain ⟨values, hvalues, rfl⟩ := hrests
    exact .pure ⟨value :: values, .cons hvalue hvalues, rfl⟩

/-- What literals, sequences and calls keep holds of every expression and the
value that it comes to, in whatever blocks it stands. -/
theorem evaluate_yields (literal : ∀ value span, Q (.literal value span) (.ofLiteral value))
    (sequence : ∀ b es, StatementsYield Q b.statements es → Q (.sequence b) (.fragment es))
    (call : ∀ c receiver args children, PartsYield Q c receiver args children →
      Action.Yields (dispatch table receiver (invocationOf c.method args children c.span))
        (Q (.call c)))
    (e : Expr) : ∀ scope, Action.Yields (evaluate table scope e) (Q e) := by
  induction e using Expr.induct with
  | literal value span =>
    intro scope
    rw [evaluate]
    exact .pure (literal value span)
  | sequence b ih =>
    intro scope
    rw [evaluate_sequence]
    exact .map ((evaluateStatements_yields fun e he => ih e he scope).mono (sequence b))
  | call c hreceiver hargs hblock =>
    intro scope
    -- the block lies in a scope of its own, which is why the scope is general
    have hreceivers : Action.Yields (evaluateReceiver table scope c.receiver)
        (Option.Rel Q c.receiver) := by
      cases hr : c.receiver with
      | none => exact .pure .none
      | some r => exact .map ((hreceiver r hr scope).mono fun _ => .some)
    have hchildren : Action.Yields (evaluateBlock table scope c.method c.block)
        (Option.Rel (fun b => StatementsYield Q b.statements) c.block) := by
      cases hb : c.block with
      | none => exact .pure .none
      | some b =>
        have hstatements := evaluateStatements_yields fun e he =>
          hblock b hb e he (scope.child c.method)
        exact .map (hstatements.mono fun es hes => .some hes)
    rw [evaluate_call]
    refine hreceivers.bind fun receiver hr => ?_
    refine (evaluateArguments_yields fun a ha => hargs a ha scope).bind fun args ha => ?_
    refine hchildren.bind fun children hc => ?_
    exact (call c receiver args children ⟨hr, ha, hc⟩).adaptFailure _

end Execution

end UiScript
