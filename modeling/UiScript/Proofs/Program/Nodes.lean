/-
The nodes of a program, and where they lie. A node is an expression anywhere
in a program. Each has a span, and what it is put together from has spans of
its own: a call has a receiver, arguments and a block, a block has
statements.

Spans nest if each of them encloses the spans of its parts, and if the parts
stand next to each other in the order of the source.

# Main statements

* `nodes_call`, `mem_nodes_call`: the nodes of a call are those of its parts,
  and the call itself.
* `mem_calls_of_mem_nodes`: calls among the nodes.
* `Expr.Nested`: how the parts of a node have to lie.
-/
import UiScript.Proofs.Program.Walks

namespace UiScript

-- ==================================================================== nodes

mutual
/-- Every expression inside of an expression, itself included, in the order of
`calls`. -/
def Expr.nodes : Expr → List Expr
  | .call ⟨receiver, method, args, block, span⟩ =>
    (match receiver with
      | some r => r.nodes
      | none => [])
      ++ .call ⟨receiver, method, args, block, span⟩ :: nodesOfArguments args
      ++ (match block with
        | some ⟨statements, _⟩ => nodesOfStatements statements
        | none => [])
  | .literal value span => [.literal value span]
  | .sequence ⟨statements, span⟩ => .sequence ⟨statements, span⟩ :: nodesOfStatements statements

/-- Every expression inside of the arguments. -/
def nodesOfArguments : List Argument → List Expr
  | [] => []
  | .positional value :: args => value.nodes ++ nodesOfArguments args
  | .named _ value _ :: args => value.nodes ++ nodesOfArguments args

/-- Every expression inside of the statements. -/
def nodesOfStatements : List Expr → List Expr
  | [] => []
  | statement :: statements => statement.nodes ++ nodesOfStatements statements
end

theorem nodesOfArguments_eq_flatMap (args : List Argument) :
    nodesOfArguments args = args.flatMap fun a => a.value.nodes := by
  induction args with
  | nil => rfl
  | cons a args ih => cases a <;> simp [nodesOfArguments, Argument.value, ih]

theorem nodesOfArguments_append (args more : List Argument) :
    nodesOfArguments (args ++ more) = nodesOfArguments args ++ nodesOfArguments more := by
  simp [nodesOfArguments_eq_flatMap]

theorem nodesOfStatements_eq_flatMap (statements : List Expr) :
    nodesOfStatements statements = statements.flatMap Expr.nodes := by
  induction statements with
  | nil => rfl
  | cons s statements ih => simp [nodesOfStatements, ih]

/-- The nodes of a call: those of its receiver, itself, those of its arguments
and of its block. -/
theorem nodes_call (c : Call) :
    (Expr.call c).nodes = c.receiver.elim [] Expr.nodes ++ .call c :: nodesOfArguments c.args
      ++ c.block.elim [] fun b => nodesOfStatements b.statements := by
  obtain ⟨receiver, method, args, block, span⟩ := c
  rcases receiver with _ | r <;> rcases block with _ | ⟨statements, s⟩ <;> simp [Expr.nodes]

theorem nodes_sequence (b : Block) :
    (Expr.sequence b).nodes = .sequence b :: nodesOfStatements b.statements := by
  obtain ⟨statements, span⟩ := b
  rfl

/-- An expression is one of its nodes. -/
theorem mem_nodes_self (e : Expr) : e ∈ e.nodes := by
  cases e with
  | call c => simp [nodes_call]
  | literal value span => exact List.mem_singleton_self _
  | sequence b => simp [nodes_sequence]

/-- A node of a call is the call, or a node of one of its parts. -/
theorem mem_nodes_call {c : Call} {e : Expr} :
    e ∈ (Expr.call c).nodes ↔
      (∃ r, c.receiver = some r ∧ e ∈ r.nodes) ∨ e = .call c ∨ (∃ a ∈ c.args, e ∈ a.value.nodes)
        ∨ ∃ b, c.block = some b ∧ ∃ s ∈ b.statements, e ∈ s.nodes := by
  obtain ⟨receiver, method, args, block, span⟩ := c
  rcases receiver with _ | r <;> rcases block with _ | ⟨statements, s⟩ <;>
    simp [nodes_call, nodesOfArguments_eq_flatMap, nodesOfStatements_eq_flatMap]

/-- A node of a program of several statements is the program, or a node of a
statement. -/
theorem mem_nodes_sequence {b : Block} {e : Expr} :
    e ∈ (Expr.sequence b).nodes ↔ e = .sequence b ∨ ∃ s ∈ b.statements, e ∈ s.nodes := by
  rw [nodes_sequence, List.mem_cons, nodesOfStatements_eq_flatMap, List.mem_flatMap]

/-- A call among the nodes is one of the calls. -/
theorem mem_calls_of_mem_nodes {c : Call} {e : Expr} (h : .call c ∈ e.nodes) : c ∈ e.calls := by
  induction e using Expr.induct with
  | literal value span => cases List.mem_singleton.1 h
  | sequence b ih =>
    obtain hself | ⟨s, hs, h⟩ := mem_nodes_sequence.1 h
    · cases hself
    · exact mem_calls_sequence.2 ⟨s, hs, ih s hs h⟩
  | call d hreceiver hargs hblock =>
    rcases mem_nodes_call.1 h with ⟨r, hr, h⟩ | hself | ⟨a, ha, h⟩ | ⟨b, hb, s, hs, h⟩
    · exact mem_calls_call.2 (.inl ⟨r, hr, hreceiver r hr h⟩)
    · exact mem_calls_call.2 (.inr (.inl (Expr.call.inj hself)))
    · exact mem_calls_call.2 (.inr (.inr (.inl ⟨a, ha, hargs a ha h⟩)))
    · exact mem_calls_call.2 (.inr (.inr (.inr ⟨b, hb, s, hs, hblock b hb s hs h⟩)))

-- ================================================================ receivers

/-- What a call is chained to, what that is chained to, and so on. -/
def Expr.receivers : Expr → List Expr
  | .call ⟨some receiver, _, _, _, _⟩ => receiver :: receiver.receivers
  | .call ⟨none, _, _, _, _⟩ => []
  | .literal .. => []
  | .sequence _ => []

-- ==================================================================== parts

/-- The span of an argument: that of its value, or from its key on. -/
def Argument.span : Argument → Span
  | .positional value => value.span
  | .named _ _ span => span

/-- The spans of what a call is put together from, in the order of the source. -/
def Call.parts (c : Call) : List Span :=
  c.receiver.toList.map Expr.span ++ c.args.map Argument.span ++ c.block.toList.map Block.span

/-- The spans that a node holds: its own, and those of its parts. -/
def Expr.spans : Expr → List Span
  | .call c => c.span :: c.parts
  | .literal _ span => [span]
  | .sequence b => b.span :: b.statements.map Expr.span

-- ================================================================== nesting

/-- Whether a span encloses another one. -/
def Span.Encloses (s t : Span) : Prop := s.start ≤ t.start ∧ t.stop ≤ s.stop

/-- Spans that stand next to each other, each behind those before it. -/
def Span.InOrder (spans : List Span) : Prop := spans.Pairwise fun s t => s.stop ≤ t.start

/-- A block encloses its statements, which stand in order. -/
structure Block.Nested (b : Block) : Prop where
  encloses : ∀ e ∈ b.statements, b.span.Encloses e.span
  ordered : Span.InOrder (b.statements.map Expr.span)

/-- A call encloses its receiver, its arguments and its block, which stand in
order; so does an argument its value, and a block its statements. -/
structure Call.Nested (c : Call) : Prop where
  encloses : ∀ s ∈ c.parts, c.span.Encloses s
  ordered : Span.InOrder c.parts
  args : ∀ a ∈ c.args, a.span.Encloses a.value.span
  block : ∀ b, c.block = some b → b.Nested

/-- The parts of a node lie inside of it, in order. -/
def Expr.Nested : Expr → Prop
  | .call c => c.Nested
  | .literal .. => True
  | .sequence b => b.Nested

end UiScript
