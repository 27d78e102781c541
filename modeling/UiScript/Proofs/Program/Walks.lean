/-
Walking over programs. What holds of every expression is shown by way of
its parts (`Expr.induct`): an expression is a literal, a call with what its
receiver, its arguments and its block hold, or a sequence of statements.

# Main statements

* `Expr.induct`: induction over expressions.
* `mem_calls_call`, `mem_literals_call`: the calls and the literals of a call
  are those of its parts, and the call itself.
* `forall_calls_call_iff`, `forall_literals_call_iff`: what holds of all of
  them.
-/
import UiScript.Program.Basic

namespace UiScript

-- ================================================================ induction

/-- A receiver is smaller than the call on it. -/
theorem sizeOf_receiver_lt {c : Call} {r : Expr} (h : c.receiver = some r) :
    sizeOf r < sizeOf (Expr.call c) := by
  obtain ⟨receiver, method, args, block, span⟩ := c
  have hr : receiver = some r := h
  simp only [hr, Expr.call.sizeOf_spec, Call.mk.sizeOf_spec, Option.some.sizeOf_spec]
  omega

/-- The value of an argument is smaller than the call that it is passed to. -/
theorem sizeOf_argument_lt {c : Call} {a : Argument} (h : a ∈ c.args) :
    sizeOf a.value < sizeOf (Expr.call c) := by
  have ha := List.sizeOf_lt_of_mem h
  have hv : sizeOf a.value < sizeOf a := by
    cases a with
    | positional value =>
      simp only [Argument.value, Argument.positional.sizeOf_spec]
      omega
    | named key value span =>
      simp only [Argument.value, Argument.named.sizeOf_spec]
      omega
  obtain ⟨receiver, method, args, block, span⟩ := c
  simp only [Expr.call.sizeOf_spec, Call.mk.sizeOf_spec] at ha ⊢
  omega

/-- A statement is smaller than the call whose block it stands in. With the
two before, this is what lets the induction over expressions go down. -/
theorem sizeOf_statement_lt {c : Call} {b : Block} {e : Expr} (hb : c.block = some b)
    (h : e ∈ b.statements) : sizeOf e < sizeOf (Expr.call c) := by
  have he := List.sizeOf_lt_of_mem h
  obtain ⟨receiver, method, args, block, span⟩ := c
  obtain ⟨statements, s⟩ := b
  have hblock : block = some ⟨statements, s⟩ := hb
  simp only [hblock, Expr.call.sizeOf_spec, Call.mk.sizeOf_spec, Option.some.sizeOf_spec,
    Block.mk.sizeOf_spec] at he ⊢
  omega

/-- What holds of a call if it holds of its parts, of literals, and of a
sequence if it holds of its statements, holds of every expression. -/
theorem Expr.induct {P : Expr → Prop}
    (call : ∀ c : Call, (∀ r, c.receiver = some r → P r) → (∀ a ∈ c.args, P a.value)
      → (∀ b, c.block = some b → ∀ e ∈ b.statements, P e) → P (.call c))
    (literal : ∀ value span, P (.literal value span))
    (sequence : ∀ b : Block, (∀ e ∈ b.statements, P e) → P (.sequence b)) : ∀ e, P e
  | .call c =>
    call c (fun r _ => Expr.induct call literal sequence r)
      (fun a _ => Expr.induct call literal sequence a.value)
      (fun _ _ e _ => Expr.induct call literal sequence e)
  | .literal value span => literal value span
  | .sequence b => sequence b (fun e _ => Expr.induct call literal sequence e)
termination_by e => sizeOf e
decreasing_by
  · exact sizeOf_receiver_lt ‹_›
  · exact sizeOf_argument_lt ‹_›
  · exact sizeOf_statement_lt ‹_› ‹_›
  · obtain ⟨statements, s⟩ := b
    have he := List.sizeOf_lt_of_mem ‹_›
    simp only [Expr.sequence.sizeOf_spec, Block.mk.sizeOf_spec] at he ⊢
    omega

-- ================================================================= literals

mutual
/-- Every literal of an expression, in the order of the source. -/
def Expr.literals : Expr → List Literal
  | .call ⟨receiver, _, args, block, _⟩ =>
    (match receiver with
      | some r => r.literals
      | none => [])
      ++ argumentLiterals args
      ++ (match block with
        | some ⟨statements, _⟩ => statementLiterals statements
        | none => [])
  | .literal value _ => [value]
  | .sequence ⟨statements, _⟩ => statementLiterals statements

/-- Every literal of the arguments. -/
def argumentLiterals : List Argument → List Literal
  | [] => []
  | .positional value :: args => value.literals ++ argumentLiterals args
  | .named _ value _ :: args => value.literals ++ argumentLiterals args

/-- Every literal of the statements. -/
def statementLiterals : List Expr → List Literal
  | [] => []
  | statement :: statements => statement.literals ++ statementLiterals statements
end

theorem argumentLiterals_eq_flatMap (args : List Argument) :
    argumentLiterals args = args.flatMap fun a => a.value.literals := by
  induction args with
  | nil => rfl
  | cons a args ih => cases a <;> simp [argumentLiterals, Argument.value, ih]

theorem statementLiterals_eq_flatMap (statements : List Expr) :
    statementLiterals statements = statements.flatMap Expr.literals := by
  induction statements with
  | nil => rfl
  | cons s statements ih => simp [statementLiterals, ih]

/-- The literals of a call are those of its receiver, its arguments and its
block. -/
theorem literals_call (c : Call) :
    (Expr.call c).literals = c.receiver.elim [] Expr.literals ++ argumentLiterals c.args
      ++ c.block.elim [] fun b => statementLiterals b.statements := by
  obtain ⟨receiver, method, args, block, span⟩ := c
  rcases receiver with _ | r <;> rcases block with _ | ⟨statements, s⟩ <;> rfl

-- ====================================================================== keys

mutual
/-- Every key of a named argument of an expression, in the order of the
source. -/
def Expr.keys : Expr → List String
  | .call ⟨receiver, _, args, block, _⟩ =>
    (match receiver with
      | some r => r.keys
      | none => [])
      ++ keysOfArguments args
      ++ (match block with
        | some ⟨statements, _⟩ => keysOfStatements statements
        | none => [])
  | .literal .. => []
  | .sequence ⟨statements, _⟩ => keysOfStatements statements

/-- Every key of the arguments, each before the keys in its value. -/
def keysOfArguments : List Argument → List String
  | [] => []
  | .positional value :: args => value.keys ++ keysOfArguments args
  | .named key value _ :: args => key :: (value.keys ++ keysOfArguments args)

/-- Every key of the statements. -/
def keysOfStatements : List Expr → List String
  | [] => []
  | statement :: statements => statement.keys ++ keysOfStatements statements
end

theorem keysOfArguments_eq_flatMap (args : List Argument) :
    keysOfArguments args = args.flatMap fun a => a.key?.toList ++ a.value.keys := by
  induction args with
  | nil => rfl
  | cons a args ih => cases a <;> simp [keysOfArguments, Argument.value, Argument.key?, ih]

theorem keysOfStatements_eq_flatMap (statements : List Expr) :
    keysOfStatements statements = statements.flatMap Expr.keys := by
  induction statements with
  | nil => rfl
  | cons s statements ih => simp [keysOfStatements, ih]

/-- The keys of a call are those of its receiver, its arguments and its block. -/
theorem keys_call (c : Call) :
    (Expr.call c).keys = c.receiver.elim [] Expr.keys ++ keysOfArguments c.args
      ++ c.block.elim [] fun b => keysOfStatements b.statements := by
  obtain ⟨receiver, method, args, block, span⟩ := c
  rcases receiver with _ | r <;> rcases block with _ | ⟨statements, s⟩ <;> rfl

-- =================================================================== members

theorem mem_literals_call {c : Call} {value : Literal} :
    value ∈ (Expr.call c).literals ↔
      (∃ r, c.receiver = some r ∧ value ∈ r.literals)
        ∨ (∃ a ∈ c.args, value ∈ a.value.literals)
        ∨ ∃ b, c.block = some b ∧ ∃ e ∈ b.statements, value ∈ e.literals := by
  obtain ⟨receiver, method, args, block, span⟩ := c
  rcases receiver with _ | r <;> rcases block with _ | ⟨statements, s⟩ <;>
    simp [Expr.literals, argumentLiterals_eq_flatMap, statementLiterals_eq_flatMap]

/-- A call of a program of several statements is one of a statement. -/
theorem mem_calls_sequence {b : Block} {c : Call} :
    c ∈ (Expr.sequence b).calls ↔ ∃ e ∈ b.statements, c ∈ e.calls := by
  obtain ⟨statements, span⟩ := b
  rw [Expr.calls, statementCalls_eq_flatMap, List.mem_flatMap]

/-- A literal of a program of several statements is one of a statement. -/
theorem mem_literals_sequence {b : Block} {value : Literal} :
    value ∈ (Expr.sequence b).literals ↔ ∃ e ∈ b.statements, value ∈ e.literals := by
  obtain ⟨statements, span⟩ := b
  rw [Expr.literals, statementLiterals_eq_flatMap, List.mem_flatMap]

theorem mem_calls_call {c d : Call} :
    d ∈ (Expr.call c).calls ↔
      (∃ r, c.receiver = some r ∧ d ∈ r.calls) ∨ d = c ∨ (∃ a ∈ c.args, d ∈ a.value.calls)
        ∨ ∃ b, c.block = some b ∧ ∃ e ∈ b.statements, d ∈ e.calls := by
  obtain ⟨receiver, method, args, block, span⟩ := c
  rcases receiver with _ | r <;> rcases block with _ | ⟨statements, s⟩ <;>
    simp [Expr.calls, argumentCalls_eq_flatMap, statementCalls_eq_flatMap]

/-- What holds of every call in a call is asked of its parts, and of the call
itself. This is the form in which the induction over expressions uses such
facts. -/
theorem forall_calls_call_iff {c : Call} {P : Call → Prop} :
    (∀ d ∈ (Expr.call c).calls, P d) ↔
      (∀ r, c.receiver = some r → ∀ d ∈ r.calls, P d) ∧ P c
        ∧ (∀ a ∈ c.args, ∀ d ∈ a.value.calls, P d)
        ∧ ∀ b, c.block = some b → ∀ e ∈ b.statements, ∀ d ∈ e.calls, P d := by
  simp only [mem_calls_call]
  constructor
  · intro h
    exact ⟨fun r hr d hd => h d (.inl ⟨r, hr, hd⟩), h c (.inr (.inl rfl)),
      fun a ha d hd => h d (.inr (.inr (.inl ⟨a, ha, hd⟩))),
      fun b hb e he d hd => h d (.inr (.inr (.inr ⟨b, hb, e, he, hd⟩)))⟩
  · rintro ⟨hreceiver, hthis, hargs, hblock⟩ d (⟨r, hr, hd⟩ | rfl | ⟨a, ha, hd⟩ | ⟨b, hb, e, he, hd⟩)
    · exact hreceiver r hr d hd
    · exact hthis
    · exact hargs a ha d hd
    · exact hblock b hb e he d hd

/-- A property of all literals is asked of the parts of a call one by one. -/
theorem forall_literals_call_iff {c : Call} {P : Literal → Prop} :
    (∀ v ∈ (Expr.call c).literals, P v) ↔
      (∀ r, c.receiver = some r → ∀ v ∈ r.literals, P v)
        ∧ (∀ a ∈ c.args, ∀ v ∈ a.value.literals, P v)
        ∧ ∀ b, c.block = some b → ∀ e ∈ b.statements, ∀ v ∈ e.literals, P v := by
  simp only [mem_literals_call]
  constructor
  · intro h
    exact ⟨fun r hr v hv => h v (.inl ⟨r, hr, hv⟩),
      fun a ha v hv => h v (.inr (.inl ⟨a, ha, hv⟩)),
      fun b hb e he v hv => h v (.inr (.inr ⟨b, hb, e, he, hv⟩))⟩
  · rintro ⟨hreceiver, hargs, hblock⟩ v (⟨r, hr, hv⟩ | ⟨a, ha, hv⟩ | ⟨b, hb, e, he, hv⟩)
    · exact hreceiver r hr v hv
    · exact hargs a ha v hv
    · exact hblock b hb e he v hv

end UiScript
