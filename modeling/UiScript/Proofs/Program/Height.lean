/-
The height of expressions: how many expressions lie on a path from the
expression down to a leaf, at most, stepping from a call to its receiver, to
the value of an argument, or to a statement of its block.

The height is how deep a recursion over an expression goes. A recursion that
puts together what it finds for the parts of an expression is a `Fold`; it
can be run to a given depth, with anything at all in the place of what lies
deeper (`Fold.run`), and down to the height of an expression this makes no
difference.

# Main statements

* `Expr.height_lt_of_part`: a part is lower than the whole.
* `length_le_height`: a path is not longer than its first expression is high.
* `Fold.run_eq`: recursion to the height of an expression is all of it.
* `Fold.program_eq`: the same for a program, whose root is not counted if it
  is a sequence of statements.
-/
import Mathlib.Data.List.Chain
import UiScript.Proofs.Program.Walks

namespace UiScript

-- ==================================================================== heights

mutual
/-- How many expressions lie on a path down to a leaf, at most. -/
def Expr.height : Expr → Nat
  | .call ⟨receiver, _, args, block, _⟩ =>
    max (match receiver with
      | some r => r.height
      | none => 0)
      (max (argumentHeight args)
        (match block with
          | some ⟨statements, _⟩ => statementHeight statements
          | none => 0)) + 1
  | .literal .. => 1
  | .sequence ⟨statements, _⟩ => statementHeight statements + 1

/-- The height of the highest argument. -/
def argumentHeight : List Argument → Nat
  | [] => 0
  | .positional value :: args => max value.height (argumentHeight args)
  | .named _ value _ :: args => max value.height (argumentHeight args)

/-- The height of the highest statement. -/
def statementHeight : List Expr → Nat
  | [] => 0
  | statement :: statements => max statement.height (statementHeight statements)
end

/-- Arguments are so high at most if each value is. -/
theorem argumentHeight_le_iff {args : List Argument} {n : Nat} :
    argumentHeight args ≤ n ↔ ∀ a ∈ args, a.value.height ≤ n := by
  induction args with
  | nil => simp [argumentHeight]
  | cons a args ih =>
    rw [List.forall_mem_cons, ← ih]
    cases a <;> exact Nat.max_le

theorem statementHeight_le_iff {statements : List Expr} {n : Nat} :
    statementHeight statements ≤ n ↔ ∀ e ∈ statements, e.height ≤ n := by
  induction statements with
  | nil => simp [statementHeight]
  | cons e statements ih =>
    rw [List.forall_mem_cons, ← ih]
    exact Nat.max_le

/-- A call is one higher than the highest of its parts. -/
theorem height_call (c : Call) :
    (Expr.call c).height = max (c.receiver.elim 0 Expr.height) (max (argumentHeight c.args)
      (c.block.elim 0 fun b => statementHeight b.statements)) + 1 := by
  obtain ⟨receiver, method, args, block, span⟩ := c
  rcases receiver with _ | r <;> rcases block with _ | ⟨statements, s⟩ <;> rfl

/-- A call is one higher than the highest of its parts. -/
theorem height_call_le_iff {c : Call} {n : Nat} :
    (Expr.call c).height ≤ n + 1 ↔
      (∀ r, c.receiver = some r → r.height ≤ n) ∧ (∀ a ∈ c.args, a.value.height ≤ n)
        ∧ ∀ b, c.block = some b → ∀ e ∈ b.statements, e.height ≤ n := by
  rw [height_call, Nat.add_le_add_iff_right, Nat.max_le, Nat.max_le, argumentHeight_le_iff]
  cases c.receiver <;> cases c.block <;> simp [statementHeight_le_iff]

theorem height_sequence (b : Block) :
    (Expr.sequence b).height = statementHeight b.statements + 1 := by
  obtain ⟨statements, span⟩ := b
  rfl

/-- Such a program is so high at most if each statement is one less. -/
theorem height_sequence_le_iff {b : Block} {n : Nat} :
    (Expr.sequence b).height ≤ n + 1 ↔ ∀ e ∈ b.statements, e.height ≤ n := by
  rw [height_sequence, Nat.add_le_add_iff_right, statementHeight_le_iff]

/-- Every expression lies on its own path. -/
theorem height_pos (e : Expr) : 0 < e.height := by
  cases e with
  | call c =>
    rw [height_call]
    exact Nat.succ_pos _
  | literal => exact Nat.succ_pos _
  | sequence b =>
    rw [height_sequence]
    exact Nat.succ_pos _

-- ====================================================================== paths

/-- One step down in an expression. -/
inductive Expr.Part : Expr → Expr → Prop where
  | receiver {c : Call} {r : Expr} (h : c.receiver = some r) : Part r (.call c)
  | argument {c : Call} {a : Argument} (h : a ∈ c.args) : Part a.value (.call c)
  | statement {c : Call} {b : Block} {e : Expr} (hb : c.block = some b) (he : e ∈ b.statements) :
    Part e (.call c)
  | sequence {b : Block} {e : Expr} (h : e ∈ b.statements) : Part e (.sequence b)

/-- A part is lower than the whole. A part may be a receiver, the value of an
argument or a statement of a block. -/
theorem Expr.height_lt_of_part {part whole : Expr} (h : part.Part whole) :
    part.height < whole.height := by
  obtain ⟨n, hn⟩ := Nat.exists_eq_succ_of_ne_zero (Nat.pos_iff_ne_zero.1 (height_pos whole))
  rw [hn, Nat.lt_succ_iff]
  cases h with
  | receiver h => exact (height_call_le_iff.1 (Nat.le_of_eq hn)).1 _ h
  | argument h => exact (height_call_le_iff.1 (Nat.le_of_eq hn)).2.1 _ h
  | statement hb he => exact (height_call_le_iff.1 (Nat.le_of_eq hn)).2.2 _ hb _ he
  | sequence h => exact height_sequence_le_iff.1 (Nat.le_of_eq hn) _ h

/-- A path down an expression: each step leads to a part of the expression
before it. -/
def Expr.IsPath (path : List Expr) : Prop := path.IsChain fun whole part => part.Part whole

/-- A path is not longer than its first expression is high. The induction is
on the path: each step leads to a part, which is lower. -/
theorem length_le_height {e : Expr} {path : List Expr} (h : Expr.IsPath (e :: path)) :
    (e :: path).length ≤ e.height := by
  induction path generalizing e with
  | nil => exact height_pos e
  | cons f path ih =>
    obtain ⟨hpart, hrest⟩ := List.isChain_cons_cons.1 h
    have hlower := Expr.height_lt_of_part hpart
    have hlength := ih hrest
    rw [List.length_cons]
    omega

/-- The statements at the root of a program. -/
def Expr.roots : Expr → List Expr
  | .sequence b => b.statements
  | e => [e]

/-- No statement at the root is higher than the program. -/
theorem height_le_of_mem_roots {e program : Expr} (h : e ∈ program.roots) :
    e.height ≤ program.height := by
  cases program with
  | sequence b => exact Nat.le_of_lt (Expr.height_lt_of_part (.sequence h))
  | call c => exact Nat.le_of_eq (congrArg Expr.height (List.mem_singleton.1 h))
  | literal value span => exact Nat.le_of_eq (congrArg Expr.height (List.mem_singleton.1 h))

-- ====================================================================== folds

/-- A recursion over expressions, by what is made of the parts of an
expression. -/
structure Fold (α : Type) where
  literal : Literal → Span → α
  call : Call → Option α → List α → Option (List α) → α
  sequence : Block → List α → α

namespace Fold

variable {α : Type}

/-- The recursion to a depth of `n` expressions; what lies deeper is left to
`beyond`. -/
def run (fold : Fold α) (beyond : Expr → α) : Nat → Expr → α
  | 0, e => beyond e
  | _ + 1, .literal value span => fold.literal value span
  | n + 1, .call c => fold.call c (c.receiver.map (fold.run beyond n))
    (c.args.map fun a => fold.run beyond n a.value)
    (c.block.map fun b => b.statements.map (fold.run beyond n))
  | n + 1, .sequence b => fold.sequence b (b.statements.map (fold.run beyond n))

/-- The recursion over a program, to a depth of `n` expressions below a
sequence of statements. -/
def program (fold : Fold α) (beyond : Expr → α) (n : Nat) : Expr → α
  | .sequence b => fold.sequence b (b.statements.map (fold.run beyond n))
  | e => fold.run beyond n e

/-- A function is the whole of the recursion. -/
structure Is (fold : Fold α) (f : Expr → α) : Prop where
  literal : ∀ value span, f (.literal value span) = fold.literal value span
  call : ∀ c, f (.call c) = fold.call c (c.receiver.map f) (c.args.map fun a => f a.value)
    (c.block.map fun b => b.statements.map f)
  sequence : ∀ b, f (.sequence b) = fold.sequence b (b.statements.map f)

variable {fold : Fold α} {f : Expr → α}

/-- Recursion to the height of an expression is all of it. -/
theorem run_eq (h : fold.Is f) (beyond : Expr → α) {n : Nat} {e : Expr} (hn : e.height ≤ n) :
    fold.run beyond n e = f e := by
  induction n generalizing e with
  | zero => exact absurd hn (Nat.not_le.2 (height_pos e))
  | succ n ih =>
    cases e with
    | literal value span => exact (h.literal value span).symm
    | sequence b =>
      rw [h.sequence, run, List.map_congr_left fun e he => ih (height_sequence_le_iff.1 hn e he)]
    | call c =>
      obtain ⟨hreceiver, hargs, hblock⟩ := height_call_le_iff.1 hn
      have hreceivers : c.receiver.map (fold.run beyond n) = c.receiver.map f := by
        cases hr : c.receiver with
        | none => rfl
        | some r => exact congrArg some (ih (hreceiver r hr))
      have hblocks : (c.block.map fun b => b.statements.map (fold.run beyond n))
          = c.block.map fun b => b.statements.map f := by
        cases hb : c.block with
        | none => rfl
        | some b => exact congrArg some (List.map_congr_left fun e he => ih (hblock b hb e he))
      rw [h.call, run, hreceivers, hblocks, List.map_congr_left fun a ha => ih (hargs a ha)]

/-- Recursion to the height of the statements of a program is all of it. -/
theorem program_eq (h : fold.Is f) (beyond : Expr → α) {n : Nat} {program : Expr}
    (hn : ∀ e ∈ program.roots, e.height ≤ n) : fold.program beyond n program = f program := by
  cases program with
  | sequence b =>
    have hstatements : b.statements.map (fold.run beyond n) = b.statements.map f :=
      List.map_congr_left fun e he => run_eq h beyond (hn e he)
    rw [h.sequence, Fold.program, hstatements]
  | call c => exact run_eq h beyond (hn _ (List.mem_singleton.2 rfl))
  | literal value span => exact run_eq h beyond (hn _ (List.mem_singleton.2 rfl))

end Fold

end UiScript
