/-
Where the calls of a program stand, and in which order they are due. A call
is handed to its handler after its receiver, its arguments from left to right
and the statements of its block, so this is the order in which the sites of
an expression are listed. A site knows the calls in whose blocks it lies; the
call's own block is not one of them, for nothing in it is the call.

# Main statements

* `Expr.sites_perm_calls`: every call has one site.
* `Expr.mem_sites`: the owners of a site are calls whose blocks enclose it,
  each of them in the block of the one before it.
* `Site.Lies.not_mem_owners`: no call lies in a block of its own.
-/
import UiScript.Proofs.Program.Walks

namespace UiScript

/-- Where a call stands: the call, and the calls in whose blocks it lies, from
the outside in. -/
structure Site where
  call : Call
  owners : List Call

-- ===================================================================== sites

mutual
/-- The sites of the calls of an expression, each behind those of its
receiver, its arguments and its block; `owners` have the expression in their
blocks. -/
def Expr.sites (owners : List Call) : Expr → List Site
  | .call ⟨receiver, method, args, block, span⟩ =>
    (match receiver with
      | some r => r.sites owners
      | none => [])
      ++ (argumentSites owners args
      ++ ((match block with
        | some ⟨statements, _⟩ =>
          statementSites (owners ++ [⟨receiver, method, args, block, span⟩]) statements
        | none => [])
      ++ [⟨⟨receiver, method, args, block, span⟩, owners⟩]))
  | .literal .. => []
  | .sequence ⟨statements, _⟩ => statementSites owners statements

/-- The sites of the calls of the arguments. -/
def argumentSites (owners : List Call) : List Argument → List Site
  | [] => []
  | .positional value :: args => value.sites owners ++ argumentSites owners args
  | .named _ value _ :: args => value.sites owners ++ argumentSites owners args

/-- The sites of the calls of the statements. -/
def statementSites (owners : List Call) : List Expr → List Site
  | [] => []
  | statement :: statements => statement.sites owners ++ statementSites owners statements
end

variable (owners : List Call)

/-- The sites of a call: those of its receiver, of its arguments, of its
block, which it owns, and then its own. -/
theorem sites_call (c : Call) :
    (Expr.call c).sites owners = c.receiver.elim [] (Expr.sites owners)
      ++ (argumentSites owners c.args
      ++ ((c.block.elim [] fun b => statementSites (owners ++ [c]) b.statements)
      ++ [⟨c, owners⟩])) := by
  obtain ⟨receiver, method, args, block, span⟩ := c
  rcases receiver with _ | r <;> rcases block with _ | ⟨statements, s⟩ <;> rfl

theorem argumentSites_cons (a : Argument) (args : List Argument) :
    argumentSites owners (a :: args) = a.value.sites owners ++ argumentSites owners args := by
  cases a <;> rfl

/-- The sites of arguments are listed argument by argument. -/
theorem argumentSites_eq_flatMap (args : List Argument) :
    argumentSites owners args = args.flatMap fun a => a.value.sites owners := by
  induction args with
  | nil => rfl
  | cons a args ih => rw [argumentSites_cons, ih, List.flatMap_cons]

theorem statementSites_eq_flatMap (statements : List Expr) :
    statementSites owners statements = statements.flatMap (Expr.sites owners) := by
  induction statements with
  | nil => rfl
  | cons s statements ih => rw [statementSites, ih, List.flatMap_cons]

variable {owners}

theorem mem_sites_sequence {b : Block} {site : Site} :
    site ∈ (Expr.sequence b).sites owners ↔ ∃ e ∈ b.statements, site ∈ e.sites owners := by
  obtain ⟨statements, span⟩ := b
  rw [Expr.sites, statementSites_eq_flatMap, List.mem_flatMap]

/-- A site of a call is one of its parts or its own; only those of its block
have it as an owner. -/
theorem mem_sites_call {c : Call} {site : Site} :
    site ∈ (Expr.call c).sites owners ↔
      (∃ r, c.receiver = some r ∧ site ∈ r.sites owners)
        ∨ (∃ a ∈ c.args, site ∈ a.value.sites owners)
        ∨ (∃ b, c.block = some b ∧ ∃ e ∈ b.statements, site ∈ e.sites (owners ++ [c]))
        ∨ site = ⟨c, owners⟩ := by
  rw [sites_call, List.mem_append, List.mem_append, List.mem_append, argumentSites_eq_flatMap,
    List.mem_flatMap, List.mem_singleton]
  cases c.receiver <;> cases c.block <;> simp [statementSites_eq_flatMap]

-- ===================================================================== calls

/-- The calls of the sites of expressions are their calls, if this holds for
each of them. -/
theorem perm_flatMap_calls {α : Type} {parts : List α} {value : α → Expr}
    (h : ∀ p ∈ parts, (((value p).sites owners).map Site.call).Perm (value p).calls) :
    ((parts.flatMap fun p => (value p).sites owners).map Site.call).Perm
      (parts.flatMap fun p => (value p).calls) := by
  rw [List.map_flatMap]
  induction parts with
  | nil => exact .nil
  | cons p parts ih =>
    obtain ⟨hthis, hrest⟩ := List.forall_mem_cons.1 h
    rw [List.flatMap_cons, List.flatMap_cons]
    exact hthis.append (ih hrest)

/-- Every call of an expression has one site. The two lists differ in the
order: a call is visited before its arguments, and is due behind them. -/
theorem Expr.sites_perm_calls (e : Expr) (owners : List Call) :
    ((e.sites owners).map Site.call).Perm e.calls := by
  induction e using Expr.induct generalizing owners with
  | literal value span => exact .nil
  | sequence b ih =>
    obtain ⟨statements, span⟩ := b
    rw [Expr.sites, Expr.calls, statementSites_eq_flatMap, statementCalls_eq_flatMap]
    exact perm_flatMap_calls fun e he => ih e he owners
  | call c hreceiver hargs hblock =>
    have hreceivers : ((c.receiver.elim [] (Expr.sites owners)).map Site.call).Perm
        (c.receiver.elim [] Expr.calls) := by
      cases hr : c.receiver with
      | none => exact .nil
      | some r => exact hreceiver r hr owners
    have harguments : ((argumentSites owners c.args).map Site.call).Perm
        (argumentCalls c.args) := by
      rw [argumentSites_eq_flatMap, argumentCalls_eq_flatMap]
      exact perm_flatMap_calls fun a ha => hargs a ha owners
    have hblocks : ((c.block.elim [] fun b =>
        statementSites (owners ++ [c]) b.statements).map Site.call).Perm
        (c.block.elim [] fun b => statementCalls b.statements) := by
      cases hb : c.block with
      | none => exact .nil
      | some b =>
        simp only [Option.elim_some]
        rw [statementSites_eq_flatMap, statementCalls_eq_flatMap]
        exact perm_flatMap_calls fun e he => hblock b hb e he _
    rw [sites_call, calls_call, List.map_append, List.map_append, List.map_append,
      List.append_assoc]
    -- the call comes last among its sites, and before its arguments in the walk
    refine hreceivers.append ?_
    rw [← List.append_assoc]
    exact ((harguments.append hblocks).append_right [c]).trans (List.perm_append_singleton _ _)

-- ==================================================================== blocks

/-- The block of a call has another call in it. -/
def Call.Encloses (owner c : Call) : Prop :=
  ∃ b, owner.block = some b ∧ ∃ e ∈ b.statements, c ∈ e.calls

/-- A call is no larger than the expression that it is in. -/
theorem sizeOf_le_of_mem_calls {c : Call} {e : Expr} (h : c ∈ e.calls) :
    sizeOf (Expr.call c) ≤ sizeOf e := by
  induction e using Expr.induct with
  | literal value span => cases h
  | sequence b ih =>
    obtain ⟨e, he, hc⟩ := mem_calls_sequence.1 h
    have hless := List.sizeOf_lt_of_mem he
    have hthis := ih e he hc
    obtain ⟨statements, span⟩ := b
    simp only [Expr.sequence.sizeOf_spec, Block.mk.sizeOf_spec] at hless ⊢
    omega
  | call d hreceiver hargs hblock =>
    rcases mem_calls_call.1 h with ⟨r, hr, hc⟩ | rfl | ⟨a, ha, hc⟩ | ⟨b, hb, e, he, hc⟩
    · have := hreceiver r hr hc
      have := sizeOf_receiver_lt hr
      omega
    · exact Nat.le_refl _
    · have := hargs a ha hc
      have := sizeOf_argument_lt ha
      omega
    · have := hblock b hb e he hc
      have := sizeOf_statement_lt hb he
      omega

/-- Nothing in the block of a call is the call. -/
theorem Call.not_encloses_self (c : Call) : ¬ c.Encloses c := by
  rintro ⟨b, hb, e, he, hc⟩
  have := sizeOf_le_of_mem_calls hc
  have := sizeOf_statement_lt hb he
  omega

/-- How a site lies in an expression that has `owners` around it: `inner` are
the owners of the site that are calls of the expression itself. -/
structure Site.Lies (e : Expr) (owners inner : List Call) (site : Site) : Prop where
  owners : site.owners = owners ++ inner
  call : site.call ∈ e.calls
  calls : ∀ o ∈ inner, o ∈ e.calls
  enclose : ∀ o ∈ inner, o.Encloses site.call
  nested : inner.Pairwise Call.Encloses

/-- A site that lies in a part lies in the whole. -/
theorem Site.Lies.of_part {e f : Expr} {inner : List Call} {site : Site}
    (h : site.Lies f owners inner) (hcalls : ∀ c ∈ f.calls, c ∈ e.calls) :
    site.Lies e owners inner :=
  ⟨h.owners, hcalls _ h.call, fun o ho => hcalls o (h.calls o ho), h.enclose, h.nested⟩

/-- No call lies in a block of its own. Owners have the call in their blocks,
and no call is smaller than itself. -/
theorem Site.Lies.not_mem_owners {e : Expr} {inner : List Call} {site : Site}
    (h : site.Lies e [] inner) : site.call ∉ site.owners := by
  rw [h.owners, List.nil_append]
  exact fun hmem => site.call.not_encloses_self (h.enclose _ hmem)

/-- The owners of a site are calls whose blocks enclose it, each of them in
the block of the one before it. -/
theorem Expr.mem_sites {e : Expr} {owners : List Call} {site : Site} (h : site ∈ e.sites owners) :
    ∃ inner, site.Lies e owners inner := by
  induction e using Expr.induct generalizing owners with
  | literal value span => cases h
  | sequence b ih =>
    obtain ⟨e, he, hsite⟩ := mem_sites_sequence.1 h
    obtain ⟨inner, hlies⟩ := ih e he hsite
    exact ⟨inner, hlies.of_part fun c hc => mem_calls_sequence.2 ⟨e, he, hc⟩⟩
  | call c hreceiver hargs hblock =>
    rcases mem_sites_call.1 h with ⟨r, hr, hsite⟩ | ⟨a, ha, hsite⟩ | ⟨b, hb, e, he, hsite⟩ | rfl
    · obtain ⟨inner, hlies⟩ := hreceiver r hr hsite
      exact ⟨inner, hlies.of_part fun d hd => mem_calls_call.2 (.inl ⟨r, hr, hd⟩)⟩
    · obtain ⟨inner, hlies⟩ := hargs a ha hsite
      exact ⟨inner, hlies.of_part fun d hd => mem_calls_call.2 (.inr (.inr (.inl ⟨a, ha, hd⟩)))⟩
    · -- the call owns the block, and is around whatever else is around the site in it
      obtain ⟨inner, hlies⟩ := hblock b hb e he hsite
      have hcalls : ∀ d ∈ e.calls, d ∈ (Expr.call c).calls := fun d hd =>
        mem_calls_call.2 (.inr (.inr (.inr ⟨b, hb, e, he, hd⟩)))
      have hencloses : ∀ d ∈ e.calls, c.Encloses d := fun d hd => ⟨b, hb, e, he, hd⟩
      refine ⟨c :: inner, ?_, hcalls _ hlies.call, ?_, ?_, ?_⟩
      · rw [hlies.owners, List.append_assoc]
        rfl
      · exact List.forall_mem_cons.2 ⟨mem_calls_call.2 (.inr (.inl rfl)),
          fun o ho => hcalls o (hlies.calls o ho)⟩
      · exact List.forall_mem_cons.2 ⟨hencloses _ hlies.call, hlies.enclose⟩
      · exact .cons (fun o ho => hencloses o (hlies.calls o ho)) hlies.nested
    · exact ⟨[], (List.append_nil owners).symm, mem_calls_call.2 (.inr (.inl rfl)), by simp, by simp,
        .nil⟩

end UiScript
