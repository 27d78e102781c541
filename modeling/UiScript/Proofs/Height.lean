/-
The two limits bound the height of every program that is read. Neither does
alone: a receiver is not nested, so chains make a program high without making
it deep, and parentheses leave no trace but start a new chain. But each
delimiter that is open holds one chain at a time, and the links of a chain
add one each, so with `maxDepth` delimiters and `maxChain` links there are
`(maxDepth + 1) * (maxChain + 1)` expressions on a path at most. So deep, and
no deeper, goes whatever recurs over the program, such as the walk of its
calls and its evaluation.

# Main statements

* `Links.height_onto`: links add one each to what they are chained to.
* `Chain.height_expr` and its kin: the height of what a derivation stands for.
* `walk_is`, `evaluation_is`: the walk of the calls and evaluation are
  recursions over the parts of an expression.
* `parsed_height`: the bound, for paths, for the walk and for evaluation.
-/
import UiScript.Proofs.Execution.Actions
import UiScript.Proofs.Grammar.Acceptance
import UiScript.Proofs.Program.Height

namespace UiScript

-- ==================================================================== bounds

/-- How high it is inside so many delimiters at most. -/
def storeys (maxChain depth : Nat) : Nat := depth * (maxChain + 1)

/-- One more delimiter makes room for one more chain, with its links and its
first call. -/
theorem storeys_succ (maxChain depth : Nat) :
    storeys maxChain (depth + 1) = storeys maxChain depth + (maxChain + 1) :=
  Nat.succ_mul ..

/-- It is no less high inside of more delimiters. -/
theorem storeys_mono (maxChain : Nat) {m n : Nat} (h : m ≤ n) :
    storeys maxChain m ≤ storeys maxChain n :=
  Nat.mul_le_mul_right _ h

/-- The highest of two is where the more delimiters are. -/
theorem storeys_max (maxChain m n : Nat) :
    storeys maxChain (max m n) = max (storeys maxChain m) (storeys maxChain n) := by
  rcases Nat.le_total m n with h | h
  · rw [Nat.max_eq_right h, Nat.max_eq_right (storeys_mono maxChain h)]
  · rw [Nat.max_eq_left h, Nat.max_eq_left (storeys_mono maxChain h)]

-- =============================================================== derivations

namespace Derivation

variable {maxChain : Nat}

mutual
/-- A chain is one higher than its parts for each of its links, and for its
first call. The links are counted by the second limit, and what is inside of
them by the first one. -/
theorem Chain.height_expr : ∀ d : Chain, d.longest ≤ maxChain →
    d.expr.height ≤ storeys maxChain (d.depth + 1)
  | .mk first links, h => by
    simp only [Chain.longest, Nat.max_le] at h
    have hfirst := first.height_expr h.1
    have hlinks := links.height_onto first.expr h.2.2
    rw [Chain.expr, Chain.depth, storeys_succ, storeys_max]
    omega

/-- Links add one each to what they are chained to, unless their arguments or
blocks are higher. The induction is on the links: each puts a call on top of
what was there. -/
theorem Links.height_onto : ∀ (d : Links) (e : Expr), d.longest ≤ maxChain →
    (d.onto e).height ≤ max e.height (storeys maxChain d.depth) + d.count
  | .none, e, h => Nat.le_max_left ..
  | .more point call rest, e, h => by
    simp only [Links.longest, Nat.max_le] at h
    have hcall := call.height_on (some e) h.1
    have hrest := rest.height_onto (.call (call.on (some e))) h.2
    rw [Option.elim_some] at hcall
    rw [Links.onto, Links.depth, Links.count, storeys_max]
    omega

/-- A primary adds one to what is inside of its call. Parentheses add nothing
to the height, while they count as a delimiter, and so leave room for the
links inside. -/
theorem Primary.height_expr : ∀ d : Primary, d.longest ≤ maxChain →
    d.expr.height ≤ storeys maxChain d.depth + 1
  | .call call, h => by
    have hcall := call.height_on none h
    rw [Option.elim_none, Nat.zero_max] at hcall
    exact hcall
  | .literal .., h => Nat.le_add_left ..
  -- parentheses leave no trace, but are a delimiter
  | .parenthesized _ inner _, h => Nat.le_succ_of_le (inner.height_expr h)

/-- A call is one higher than its receiver and than what is in its arguments
and its block. -/
theorem Call.height_on : ∀ (d : Call) (receiver : Option Expr), d.longest ≤ maxChain →
    (Expr.call (d.on receiver)).height
      ≤ max (receiver.elim 0 Expr.height) (storeys maxChain d.depth) + 1
  | .mk name span args block, receiver, h => by
    simp only [Call.longest, Nat.max_le] at h
    have hargs := args.height_values h.1
    have hblock := block.height_value h.2
    rw [Call.depth, storeys_max, height_call_le_iff]
    refine ⟨?_, fun a ha => ?_, fun b hb e he => ?_⟩
    · rintro r rfl
      exact Nat.le_max_left ..
    · have := hargs a ha
      omega
    · have := hblock b hb e he
      omega

/-- Arguments are as high as one delimiter less allows for: left out, there
are none. -/
theorem Arguments.height_values : ∀ d : Arguments, d.longest ≤ maxChain →
    ∀ a ∈ d.values, a.value.height ≤ storeys maxChain d.depth
  | .none, _ => fun _ ha => by cases ha
  | .list _ items _, h => items.height_values h

theorem ArgumentList.height_values : ∀ d : ArgumentList, d.longest ≤ maxChain →
    ∀ a ∈ d.values, a.value.height ≤ storeys maxChain (d.depth + 1)
  | .none, _ => fun _ ha => by cases ha
  | .last arg, h => by
    rw [ArgumentList.values, List.forall_mem_singleton]
    exact arg.height_value h
  | .more arg _ rest, h => by
    simp only [ArgumentList.longest, Nat.max_le] at h
    have hthis := arg.height_value h.1
    have hrest := rest.height_values h.2
    rw [storeys_succ] at hthis hrest
    rw [ArgumentList.values, List.forall_mem_cons, ArgumentList.depth, storeys_succ, storeys_max]
    refine ⟨by omega, fun a ha => ?_⟩
    have := hrest a ha
    omega

theorem Argument.height_value : ∀ d : Argument, d.longest ≤ maxChain →
    d.value.value.height ≤ storeys maxChain (d.depth + 1)
  | .positional value, h => value.height_expr h
  | .named _ _ _ value, h => value.height_expr h

/-- A block opens a delimiter, so its statements are as high as one less
allows for. -/
theorem Block.height_value : ∀ d : Block, d.longest ≤ maxChain →
    ∀ b, d.value = some b → ∀ e ∈ b.statements, e.height ≤ storeys maxChain d.depth
  | .none, _ => fun _ hb => by cases hb
  | .fenced _ _ body _, h => fun b hb => by
    cases hb
    exact body.height_exprs h

/-- The statements of a body are whole chains, each with all of its links. -/
theorem Body.height_exprs : ∀ d : Body, d.longest ≤ maxChain →
    ∀ e ∈ d.exprs, e.height ≤ storeys maxChain (d.depth + 1)
  | .done _, _ => fun _ he => by cases he
  | .more _ statement rest, h => by
    simp only [Body.longest, Nat.max_le] at h
    have hthis := statement.height_expr h.1
    have hrest := rest.height_exprs h.2
    rw [storeys_succ] at hthis hrest
    rw [Body.exprs, List.forall_mem_cons, Body.depth, storeys_succ, storeys_max]
    refine ⟨by omega, fun e he => ?_⟩
    have := hrest e he
    omega
end

end Derivation

-- ================================================================= recursions

/-- The walk of the calls. -/
def walk : Fold (List Call) where
  literal _ _ := []
  call c receiver args block := receiver.getD [] ++ c :: args.flatten ++ (block.getD []).flatten
  sequence _ statements := statements.flatten

/-- The walk of the calls is a recursion of the kind that the height bounds. -/
theorem walk_is : walk.Is Expr.calls where
  literal _ _ := rfl
  call c := by
    rw [calls_call, argumentCalls_eq_flatMap]
    simp only [walk, List.flatMap]
    cases c.receiver <;> cases c.block <;>
      simp [statementCalls_eq_flatMap, List.flatMap]
  sequence b := by
    obtain ⟨statements, span⟩ := b
    exact statementCalls_eq_flatMap statements

namespace Execution

variable {σ : Type}

/-- The values of arguments from left to right, by how each is evaluated. -/
def argumentsFrom : List (Option String × Action σ Value) → Action σ (List EvaluatedArgument)
  | [] => pure []
  | (key, value) :: args => do
    let value ← value
    let rest ← argumentsFrom args
    pure ((key, value) :: rest)

/-- What statements contribute in order, by how each is evaluated. -/
def statementsFrom (scope : Scope) : List (Action σ Value) → Action σ (List Element)
  | [] => pure []
  | statement :: statements => do
    let value ← insideScope scope statement
    let rest ← statementsFrom scope statements
    pure (value.elements ++ rest)

/-- Evaluation, in any scope. -/
def evaluation (table : Table σ) : Fold (Scope → Action σ Value) where
  literal value _ := fun _ => pure (.ofLiteral value)
  call c receiver args block := fun scope => do
    let receiver ← (match receiver with
      | some r => some <$> r scope
      | none => pure none)
    let args ← argumentsFrom ((c.args.map Argument.key?).zip (args.map (· scope)))
    let children ← (match block with
      | some statements => some <$> statementsFrom (scope.child c.method)
          (statements.map (· (scope.child c.method)))
      | none => pure none)
    adaptFailure (·.withSpan c.span)
      (dispatch table receiver (invocationOf c.method args children c.span))
  sequence _ statements := fun scope =>
    Value.fragment <$> statementsFrom scope (statements.map (· scope))

variable (table : Table σ) (scope : Scope)

/-- Arguments are evaluated by how each of them is, and nothing else of them
matters but the keys. -/
theorem evaluateArguments_eq_argumentsFrom (args : List Argument) :
    evaluateArguments table scope args = argumentsFrom ((args.map Argument.key?).zip
      (args.map fun a => evaluate table scope a.value)) := by
  induction args with
  | nil => rw [evaluateArguments]; rfl
  | cons a args ih =>
    rw [evaluateArguments_cons, ih]
    rfl

/-- Statements are evaluated by how each of them is. -/
theorem evaluateStatements_eq_statementsFrom (es : List Expr) :
    evaluateStatements table scope es
      = statementsFrom scope (es.map fun e => evaluate table scope e) := by
  induction es with
  | nil => rw [evaluateStatements_nil]; rfl
  | cons e es ih =>
    rw [evaluateStatements_cons, ih]
    rfl

/-- Evaluation is a recursion of the kind that the height bounds, in whatever
scope it stands. -/
theorem evaluation_is : (evaluation table).Is fun e scope => evaluate table scope e where
  literal value span := by
    funext scope
    rw [evaluate]
    rfl
  call c := by
    funext scope
    rw [evaluate_call, evaluateArguments_eq_argumentsFrom]
    obtain ⟨receiver, method, args, block, span⟩ := c
    rcases receiver with _ | r <;> rcases block with _ | b <;>
      simp only [evaluation, evaluateReceiver, evaluateBlock, Option.map_none, Option.map_some,
        List.map_map, evaluateStatements_eq_statementsFrom] <;> rfl
  sequence b := by
    funext scope
    rw [evaluate_sequence, evaluateStatements_eq_statementsFrom]
    simp only [evaluation, List.map_map]
    rfl

end Execution

-- ==================================================================== programs

namespace ParseRules

open Execution

variable {rules : ParseRules}

/-- The statements of a program are not higher than allowed if the statements
that it is made of are not. -/
theorem height_roots_rootOf {statements : List Expr} {n : Nat}
    (h : ∀ e ∈ statements, e.height ≤ n) : ∀ e ∈ (rootOf statements).roots, e.height ≤ n := by
  match statements with
  | [] => exact h
  | [only] =>
    intro e he
    exact Nat.le_trans (height_le_of_mem_roots he) (h only (List.mem_singleton.2 rfl))
  | _ :: _ :: _ => exact h

/-- The statements of a program within the limits are not higher than these
allow. -/
theorem Passing.height_roots {d : Derivation.Program} (h : rules.Passing d) :
    ∀ e ∈ d.expr.roots,
      e.height ≤ (rules.options.maxDepth + 1) * (rules.options.maxChain + 1) := by
  have hheights := (Derivation.Body.more d.separators d.first d.rest).height_exprs h.short
  have hdepth := storeys_mono rules.options.maxChain (Nat.succ_le_succ h.fits)
  exact height_roots_rootOf fun e he => Nat.le_trans (hheights e he) hdepth

/-- However a program is read, no path from one of its statements down to a
leaf has more than `(maxDepth + 1) * (maxChain + 1)` expressions. The walk of
its calls and its evaluation recur no deeper than that: whatever they would do
any deeper makes no difference. -/
theorem parsed_height {tokens : List Token} {node : Expr} (h : rules.parse tokens = .ok node) :
    (∀ e ∈ node.roots, ∀ path, Expr.IsPath (e :: path) →
        (e :: path).length ≤ (rules.options.maxDepth + 1) * (rules.options.maxChain + 1))
      ∧ (∀ beyond, walk.program beyond
          ((rules.options.maxDepth + 1) * (rules.options.maxChain + 1)) node = node.calls)
      ∧ ∀ {σ : Type} (table : Table σ) beyond, (evaluation table).program beyond
          ((rules.options.maxDepth + 1) * (rules.options.maxChain + 1)) node .root
        = execute table node := by
  obtain ⟨-, d, rest, -, -, -, hpassing, rfl⟩ := derivation_of_parse h
  have hroots := hpassing.height_roots
  refine ⟨fun e he path hpath => ?_, fun beyond => ?_, fun table beyond => ?_⟩
  · exact Nat.le_trans (length_le_height hpath) (hroots e he)
  · exact Fold.program_eq walk_is beyond hroots
  · exact congrFun (Fold.program_eq (evaluation_is table) beyond hroots) .root

/-- A greeting within one link and two delimiters; no path in it has more than
six expressions. -/
theorem parsed_height_smallGreeting :
    let rules : ParseRules := ⟨.denylistOnly, ⟨2, 1, true⟩⟩
    rules.parse (smallGreeting.tokens ++ [⟨.endOfInput, ⟨37, 37⟩⟩]) = .ok smallGreeting.expr
      ∧ (∀ e ∈ smallGreeting.expr.roots, ∀ path, Expr.IsPath (e :: path) → (e :: path).length ≤ 6)
      ∧ (∀ beyond, walk.program beyond 6 smallGreeting.expr = smallGreeting.expr.calls)
      ∧ ∀ {σ : Type} (table : Table σ) beyond,
        (evaluation table).program beyond 6 smallGreeting.expr .root
          = execute table smallGreeting.expr := by
  intro rules
  have hparse : rules.parse (smallGreeting.tokens ++ [⟨.endOfInput, ⟨37, 37⟩⟩])
      = .ok smallGreeting.expr :=
    parse_of_derivation rfl rfl rfl ⟨by decide, by decide, by decide, by decide⟩
  exact ⟨hparse, parsed_height hparse⟩

end ParseRules

end UiScript
