/-
The shape of the programs that are read. In every argument list the keys are
distinct, and what has no key stands before what has one; a sequence stands at
the root or nowhere, and has two statements at least.

# What follows for a run

A handler is given what the parts of a call of the program came to, so the
named arguments that it is given have distinct keys and stand in the order of
the source, and so do the positional ones. What evaluation would do for a
sequence below the root is of no account, as there is none: with anything else
in its place, a program that is read comes to the same.

# Main statements

* `Chain.flat_expr` and its kin: a derivation stands for no sequence.
* `programOr_eq`: a recursion that is told apart below the root.
* `InOrder.keys_nodup`: the keys that a handler is given.
* `parsed_shape`: the shape of a program, and what follows for its runs.
-/
import UiScript.Proofs.Execution.Visits
import UiScript.Proofs.Height
import UiScript.Proofs.Program.Nodes
import UiScript.Standard.Table

namespace UiScript

-- ============================================================== flat expressions

/-- Whether an expression is a sequence of statements. -/
def Expr.isSequence : Expr → Bool
  | .sequence _ => true
  | _ => false

/-- No sequence stands anywhere in an expression. -/
def Expr.Flat (e : Expr) : Prop := ∀ part ∈ e.nodes, part.isSequence = false

/-- A literal holds nothing but itself. -/
theorem flat_literal (value : Literal) (span : Span) : (Expr.literal value span).Flat := by
  intro part hpart
  rw [List.mem_singleton.1 hpart]
  rfl

/-- A sequence is not flat. -/
theorem not_flat_sequence (b : Block) : ¬ (Expr.sequence b).Flat :=
  fun h => Bool.noConfusion (h _ (mem_nodes_self _))

/-- A call is flat if its parts are. -/
theorem flat_call_iff {c : Call} :
    (Expr.call c).Flat ↔ (∀ r, c.receiver = some r → r.Flat) ∧ (∀ a ∈ c.args, a.value.Flat)
      ∧ ∀ b, c.block = some b → ∀ e ∈ b.statements, e.Flat := by
  unfold Expr.Flat
  constructor
  · intro h
    refine ⟨fun r hr part hpart => ?_, fun a ha part hpart => ?_, fun b hb e he part hpart => ?_⟩
    · exact h part (mem_nodes_call.2 (.inl ⟨r, hr, hpart⟩))
    · exact h part (mem_nodes_call.2 (.inr (.inr (.inl ⟨a, ha, hpart⟩))))
    · exact h part (mem_nodes_call.2 (.inr (.inr (.inr ⟨b, hb, e, he, hpart⟩))))
  · rintro ⟨hreceiver, hargs, hblock⟩ part hpart
    rcases mem_nodes_call.1 hpart with ⟨r, hr, hpart⟩ | rfl | ⟨a, ha, hpart⟩ | ⟨b, hb, e, he, hpart⟩
    · exact hreceiver r hr part hpart
    · rfl
    · exact hargs a ha part hpart
    · exact hblock b hb e he part hpart

-- =============================================================== derivations

namespace Derivation

mutual
/-- What a derivation stands for is put together from calls and literals. A
sequence is only made of several statements, and these stand in a program or
in a block. -/
theorem Chain.flat_expr : ∀ d : Chain, d.expr.Flat
  | .mk first links => links.flat_onto first.flat_expr

/-- Links put a flat expression inside of calls, and calls are no sequences. -/
theorem Links.flat_onto : ∀ (d : Links) {e : Expr}, e.Flat → (d.onto e).Flat
  | .none, _, h => h
  | .more _ call rest, _, h => rest.flat_onto (call.flat_on fun _ hr => Option.some.inj hr ▸ h)

/-- A primary is a literal, a call or a chain, and none of these is a
sequence. -/
theorem Primary.flat_expr : ∀ d : Primary, d.expr.Flat
  | .call call => call.flat_on fun _ hr => nomatch hr
  | .literal value span => flat_literal value span
  | .parenthesized _ inner _ => inner.flat_expr

/-- A call is flat if its receiver is: its arguments and its block hold chains
only. -/
theorem Call.flat_on : ∀ (d : Call) {receiver : Option Expr},
    (∀ r, receiver = some r → r.Flat) → (Expr.call (d.on receiver)).Flat
  | .mk _ _ args block, _, h => flat_call_iff.2 ⟨h, args.flat_values, block.flat_value⟩

theorem Arguments.flat_values : ∀ d : Arguments, ∀ a ∈ d.values, a.value.Flat
  | .none => fun _ ha => nomatch ha
  | .list _ items _ => items.flat_values

theorem ArgumentList.flat_values : ∀ d : ArgumentList, ∀ a ∈ d.values, a.value.Flat
  | .none => fun _ ha => nomatch ha
  | .last arg => List.forall_mem_singleton.2 arg.flat_value
  | .more arg _ rest => List.forall_mem_cons.2 ⟨arg.flat_value, rest.flat_values⟩

theorem Argument.flat_value : ∀ d : Argument, d.value.value.Flat
  | .positional value => value.flat_expr
  | .named _ _ _ value => value.flat_expr

/-- The statements of a block are chains, so none of them is a sequence. -/
theorem Block.flat_value : ∀ d : Block, ∀ b, d.value = some b → ∀ e ∈ b.statements, e.Flat
  | .none => fun _ hb => nomatch hb
  | .fenced _ _ body _ => fun _ hb => by
    cases hb
    exact body.flat_exprs

theorem Body.flat_exprs : ∀ d : Body, ∀ e ∈ d.exprs, e.Flat
  | .done _ => fun _ he => nomatch he
  | .more _ statement rest => List.forall_mem_cons.2 ⟨statement.flat_expr, rest.flat_exprs⟩
end

end Derivation

-- ================================================================= recursions

namespace Fold

variable {α : Type} (fold : Fold α) (nested : Block → List α → α) (beyond : Expr → α)

/-- The recursion that makes something else of a sequence. -/
def nesting : Fold α := { fold with sequence := nested }

/-- The recursion over a program to a depth of `n` expressions, which makes
something else of a sequence below the root. -/
def programOr (n : Nat) : Expr → α
  | .sequence b => fold.sequence b (b.statements.map ((fold.nesting nested).run beyond n))
  | e => (fold.nesting nested).run beyond n e

/-- What is made of a sequence is of no account where there is none. -/
theorem run_nesting {n : Nat} {e : Expr} (h : e.Flat) :
    (fold.nesting nested).run beyond n e = fold.run beyond n e := by
  induction n generalizing e with
  | zero => rfl
  | succ n ih =>
    cases e with
    | literal value span => rfl
    | sequence b => exact absurd h (not_flat_sequence b)
    | call c =>
      obtain ⟨hreceiver, hargs, hblock⟩ := flat_call_iff.1 h
      have hreceivers : c.receiver.map ((fold.nesting nested).run beyond n)
          = c.receiver.map (fold.run beyond n) :=
        Option.map_congr fun r hr => ih (hreceiver r hr)
      have hblocks : (c.block.map fun b => b.statements.map ((fold.nesting nested).run beyond n))
          = c.block.map fun b => b.statements.map (fold.run beyond n) :=
        Option.map_congr fun b hb => List.map_congr_left fun e he => ih (hblock b hb e he)
      rw [run, run, hreceivers, hblocks, List.map_congr_left fun a ha => ih (hargs a ha)]
      rfl

/-- What is made of a sequence below the root is of no account where there is
none. So evaluation may be anything for nested sequences, and a program that
is read does not notice. -/
theorem programOr_eq {n : Nat} {program : Expr} (h : ∀ e ∈ program.roots, e.Flat) :
    fold.programOr nested beyond n program = fold.program beyond n program := by
  cases program with
  | sequence b =>
    have hstatements : b.statements.map ((fold.nesting nested).run beyond n)
        = b.statements.map (fold.run beyond n) :=
      List.map_congr_left fun e he => run_nesting fold nested beyond (h e he)
    rw [programOr, hstatements, Fold.program]
  | call c => exact run_nesting fold nested beyond (h _ (List.mem_singleton.2 rfl))
  | literal value span => exact run_nesting fold nested beyond (h _ (List.mem_singleton.2 rfl))

end Fold

-- ================================================================ invocations

/-- The keys of a call are those of its named arguments. -/
theorem Call.map_fst_named (c : Call) :
    c.named.map Prod.fst = ParseRules.argumentKeys c.args := by
  unfold Call.named ParseRules.argumentKeys
  rw [List.map_filterMap]
  congr 1
  funext a
  cases a <;> rfl

/-- The keys of what a handler is given are distinct if those of the call are.
An argument keeps its key on the way from the program to the handler. -/
theorem InOrder.keys_nodup {σ : Type} {table : Table σ} {scope : Scope} {s : σ} {c : Call}
    {h : Handled} (horder : InOrder c.args) (hgiven : Execution.Given table scope s c h) :
    (h.invocation.named.map Prod.fst).Nodup := by
  have hkeys : c.named.map Prod.fst = h.invocation.named.map Prod.fst := by
    have hsame : List.Forall₂ (fun a v => a.1 = v.1) c.named h.invocation.named :=
      hgiven.named.imp fun _ _ hboth => hboth.1.symm
    have hmaps : List.Forall₂ (· = ·) (c.named.map Prod.fst)
        (h.invocation.named.map Prod.fst) :=
      List.forall₂_map_left_iff.2 (List.forall₂_map_right_iff.2 hsame)
    rwa [List.forall₂_eq_eq_eq] at hmaps
  rw [← hkeys, c.map_fst_named]
  exact horder.nodup

-- ==================================================================== programs

namespace ParseRules

open Execution

variable {rules : ParseRules} {tokens : List Token} {node : Expr}

/-- Argument lists are in order, and a sequence of two statements or more
stands at the root or nowhere. -/
structure Shaped (node : Expr) : Prop where
  ordered : ∀ c ∈ node.calls, InOrder c.args
  flat : ∀ e ∈ node.roots, e.Flat
  several : ∀ b, node = .sequence b → 2 ≤ b.statements.length

/-- Flat statements make a program that has a sequence at the root if there
are several. -/
theorem shaped_rootOf {first : Expr} {rest : List Expr}
    (hordered : ∀ c ∈ (rootOf (first :: rest)).calls, InOrder c.args)
    (hflat : ∀ e ∈ first :: rest, e.Flat) : Shaped (rootOf (first :: rest)) := by
  refine ⟨hordered, ?_, ?_⟩
  · cases rest with
    | nil =>
      have hfirst : first.Flat := hflat first List.mem_cons_self
      cases first with
      | sequence b => exact absurd hfirst (not_flat_sequence b)
      | call c => exact hflat
      | literal value span => exact hflat
    | cons second rest => exact hflat
  · cases rest with
    | nil =>
      rintro b rfl
      exact absurd (hflat _ List.mem_cons_self) (not_flat_sequence b)
    | cons second rest =>
      rintro b hb
      cases hb
      exact Nat.le_add_left ..

/-- What is parsed is shaped: it has a derivation, and a sequence is made at
the root alone. -/
theorem shaped_of_parse (h : rules.parse tokens = .ok node) : Shaped node := by
  obtain ⟨-, d, rest, -, -, -, hpassing, rfl⟩ := derivation_of_parse h
  refine shaped_rootOf (fun c hc => (hpassing.admits.calls c hc).2) ?_
  exact List.forall_mem_cons.2 ⟨d.first.flat_expr, d.rest.flat_exprs⟩

/-- A sequence is visited at the root of a program or nowhere. -/
theorem Shaped.eq_of_visits {σ : Type} {table : Table σ} {scope : Scope} {s : σ} {v : Visit σ}
    (h : Shaped node) (hvisits : Visits table ⟨scope, s, node⟩ v)
    (hsequence : v.expr.isSequence = true) : v = ⟨scope, s, node⟩ := by
  have hnone : ∀ e ∈ node.roots, v.expr ∉ e.nodes := by
    intro e he hmem
    rw [h.flat e he v.expr hmem] at hsequence
    cases hsequence
  cases node with
  | sequence b =>
    cases hvisits with
    | here => rfl
    | @sequence _ _ _ _ _ _ e _ _ hstatements _ hrest =>
      have he : e ∈ b.statements := by simp [hstatements]
      exact absurd hrest.mem_nodes (hnone e he)
  | call c => exact absurd hvisits.mem_nodes (hnone _ (List.mem_singleton.2 rfl))
  | literal value span => exact absurd hvisits.mem_nodes (hnone _ (List.mem_singleton.2 rfl))

/-- Programs that are read have a shape. So a handler that is run is given
keys that are distinct, and what the arguments of a call that is visited came
to, from left to right. No sequence is visited below the root, and whatever is
made of one there, the program comes to the same. -/
theorem parsed_shape (h : rules.parse tokens = .ok node) :
    Shaped node
      ∧ (∀ {σ : Type} (table : Table σ) (s : σ),
        let plain := (execute table node).run s
        let watched := (execute table.watched node).run (s, [])
        (watched.1, watched.2.1) = plain ∧ ∀ h ∈ watched.2.2,
          (h.invocation.named.map Prod.fst).Nodup ∧ ∃ scope t, ∃ c ∈ node.calls,
            Visits table ⟨.root, s, node⟩ ⟨scope, t, .call c⟩ ∧ Given table scope t c h
              ∧ List.Forall₂ (CameTo table scope) c.positional h.invocation.positional
              ∧ List.Forall₂ (fun a v => v.1 = a.1 ∧ CameTo table scope a.2 v.2) c.named
                h.invocation.named)
      ∧ (∀ {σ : Type} (table : Table σ) (s : σ) (v : Visit σ), Visits table ⟨.root, s, node⟩ v →
        v.expr.isSequence = true → v = ⟨.root, s, node⟩)
      ∧ ∀ {σ : Type} (table : Table σ) nested beyond n, (∀ e ∈ node.roots, e.height ≤ n) →
        (evaluation table).programOr nested beyond n node .root = execute table node := by
  have hshaped := shaped_of_parse h
  refine ⟨hshaped, fun table s => ?_, fun table s v => hshaped.eq_of_visits,
    fun table nested beyond n hn => ?_⟩
  · obtain ⟨log, hrun, hlog⟩ := evaluate_visits table node .root s []
    -- the log starts empty, so all of it was made in this run
    have hwatched : (execute table.watched node).run (s, [])
        = (((execute table node).run s).1, ((execute table node).run s).2, log) := hrun
    rw [hwatched]
    refine ⟨rfl, fun h hh => ?_⟩
    obtain ⟨scope, t, c, hvisits, hgiven⟩ := hlog h hh
    have hc : c ∈ node.calls := hvisits.mem_calls
    exact ⟨(hshaped.ordered c hc).keys_nodup hgiven, scope, t, c, hc, hvisits, hgiven,
      hgiven.positional, hgiven.named⟩
  · rw [Fold.programOr_eq _ nested beyond hshaped.flat]
    exact congrFun (Fold.program_eq (evaluation_is table) beyond hn) .root

/-- `divider; heading("Hi", level: 2)` -/
def twoStatements : Derivation.Program :=
  ⟨[], .mk (.call (.mk "divider" ⟨0, 7⟩ .none .none)) .none,
    .more [⟨7, 8⟩]
      (.mk (.call (.mk "heading" ⟨9, 16⟩
        (.list ⟨16, 17⟩
          (.more (.positional (.mk (.literal (.string "Hi") ⟨17, 21⟩) .none)) ⟨21, 22⟩
            (.last (.named "level" ⟨23, 28⟩ ⟨28, 29⟩
              (.mk (.literal (.number (.int 2)) ⟨30, 31⟩) .none))))
          ⟨31, 32⟩) .none)) .none)
      (.done [])⟩

/-- Two statements make a sequence, and two handlers are run; the second one
is given an argument of either kind. -/
theorem parsed_shape_twoStatements :
    strictly.parse (twoStatements.tokens ++ [⟨.endOfInput, ⟨32, 32⟩⟩]) = .ok twoStatements.expr
      ∧ twoStatements.expr.isSequence = true ∧ Shaped twoStatements.expr
      ∧ ((execute Standard.table.watched twoStatements.expr).run ((), [])).2.2.map
          (fun h => (h.name, h.invocation.positional, h.invocation.named))
        = [("divider", [], []), ("heading", [.string "Hi"], [("level", .number (.int 2))])]
      ∧ ∀ h ∈ ((execute Standard.table.watched twoStatements.expr).run ((), [])).2.2,
        (h.invocation.named.map Prod.fst).Nodup := by
  have hparse : strictly.parse (twoStatements.tokens ++ [⟨.endOfInput, ⟨32, 32⟩⟩])
      = .ok twoStatements.expr :=
    parse_of_derivation rfl rfl rfl ⟨by decide, by decide, by decide, by decide⟩
  obtain ⟨hshaped, hruns, -⟩ := parsed_shape hparse
  exact ⟨hparse, rfl, hshaped, rfl, fun h hh => ((hruns Standard.table ()).2 h hh).1⟩

end ParseRules

end UiScript
