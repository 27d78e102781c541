/-
The limits only cut. What is read under some limits is read under any others
that it does not pass, and is the same program; under limits that it passes,
reading ends at the first delimiter or link, in the order of the source, that
is one too many, and says so of that one.

# Main statements

* `inspect_of_excess`: if no word is refused, the first load that is too much
  ends the inspection.
* `limits_cut`: a program that is read, under other limits.
-/
import UiScript.Proofs.Grammar.Acceptance

namespace UiScript.ParseRules

open Token (mark front)

/-- The rules with other limits. -/
def limited (rules : ParseRules) (maxDepth maxChain : Nat) : ParseRules :=
  ⟨rules.policy, ⟨maxDepth, maxChain, rules.options.strictLiterals⟩⟩

variable {rules : ParseRules}

/-- If no word is refused, the first load that is too much ends the
inspection. The words before it were admitted, and the loads before it fit. -/
theorem inspect_of_excess {checks : List Check} {before after : List Load} {load : Load}
    {e : SyntaxError} (hwords : rules.review (wordsOf checks) = .ok ())
    (hloads : loadsOf checks = before ++ load :: after)
    (hbefore : ∀ l ∈ before,
      l.excess? rules.options.maxDepth rules.options.maxChain = none)
    (hload : load.excess? rules.options.maxDepth rules.options.maxChain = some e) :
    rules.inspect checks = .error (.grammar e) := by
  induction checks generalizing before with
  | nil =>
    rw [loadsOf] at hloads
    cases List.nil_eq_append_iff.1 hloads |>.2
  | cons check checks ih =>
    cases check with
    -- words pass, so the excess is still ahead
    | word role span =>
      rw [wordsOf, review] at hwords
      obtain ⟨_, hthis, hrest⟩ := bind_eq_ok_iff.1 hwords
      rw [inspect, examine, hthis]
      exact ih hrest hloads hbefore
    -- a load is the one that is too much, or one of those before it
    | load first =>
      rw [loadsOf] at hloads
      cases before with
      | nil =>
        obtain ⟨rfl, -⟩ := List.cons.inj hloads
        rw [inspect, examine, admitLoad, hload]
        rfl
      | cons l before =>
        obtain ⟨rfl, hrest⟩ := List.cons.inj hloads
        obtain ⟨hthis, hbefore⟩ := List.forall_mem_cons.1 hbefore
        rw [inspect, examine, admitLoad_eq_ok hthis]
        exact ih hwords hrest hbefore

/-- How a list of tokens is read under other limits than those under which it
is the program `node`. It has a derivation, up to the end, which says how many
delimiters are open at once, how many calls are chained, and where; the
program is read if this is within the limits. Otherwise reading ends at the
first of its loads that is too much, which is too much by one: the delimiter
that would be the next one open, or the point of the call that would be the
next one of its chain. -/
structure UnderLimits (rules : ParseRules) (tokens : List Token) (node : Expr)
    (d : Derivation.Program) : Prop where
  visible : ∃ rest, tokens.filter (fun t => !t.isComment) = d.tokens ++ rest
    ∧ front .endOfInput rest = .endOfInput
  greedy : d.Greedy
  expr : d.expr = node
  loads : d.loads.map Load.span = Token.loadSpans d.tokens
  within : ∀ maxDepth maxChain, d.depth ≤ maxDepth → d.longest ≤ maxChain →
    (rules.limited maxDepth maxChain).parse tokens = .ok node
  beyond : ∀ maxDepth maxChain, ¬ (d.depth ≤ maxDepth ∧ d.longest ≤ maxChain) →
    ∃ before load after e, d.loads = before ++ load :: after
      ∧ (∀ l ∈ before, l.excess? maxDepth maxChain = none) ∧ load.Tips maxDepth maxChain e
      ∧ (rules.limited maxDepth maxChain).parse tokens = .error (.grammar e)

/-- What is read under some limits is read under others, or cut at the first
load that is too much. -/
theorem limits_cut {tokens : List Token} {node : Expr} (h : rules.parse tokens = .ok node) :
    ∃ d, rules.UnderLimits tokens node d := by
  obtain ⟨hmarks, d, rest, hseen, hrest, -, hpassing, rfl⟩ := derivation_of_parse h
  have hread : ∀ maxDepth maxChain, (rules.limited maxDepth maxChain).Inspected d.checks
      ((rules.limited maxDepth maxChain).parse tokens) d.expr := fun _ _ =>
    parse_inspected hpassing.greedy hpassing.admits.orderly hmarks hseen hrest
  -- the policy is the same, so no word is refused under any limits
  have hwords : ∀ maxDepth maxChain,
      (rules.limited maxDepth maxChain).review (wordsOf d.checks) = .ok () := by
    intro maxDepth maxChain
    rw [d.words_checks]
    exact review_eq_ok_of_admits d.roles_expr ⟨hpassing.admits.calls, hpassing.admits.literals⟩
  refine ⟨d, ⟨rest, hseen, hrest⟩, hpassing.greedy, rfl, d.spans_loads, ?_, ?_⟩
  · intro maxDepth maxChain hfits hshort
    have hwithin : (rules.limited maxDepth maxChain).inspect d.checks
        = (rules.limited maxDepth maxChain).review d.roles := inspect_of_fits hfits hshort
    rw [hread, hwithin, ← d.words_checks, hwords]
    rfl
  · intro maxDepth maxChain hover
    cases d.measured maxDepth maxChain with
    | within hloads hfits => exact absurd hfits hover
    | beyond before after load e hloads hbefore hload hfits =>
      refine ⟨before, load, after, e, hloads, hbefore, hload, ?_⟩
      rw [hread, inspect_of_excess (hwords maxDepth maxChain) hloads hbefore hload.excess]
      rfl

/-- A greeting, which is read under the limits of `strictly`. -/
theorem limits_cut_smallGreeting :
    strictly.parse (smallGreeting.tokens ++ [⟨.endOfInput, ⟨37, 37⟩⟩]) = .ok smallGreeting.expr
      ∧ ∃ d, strictly.UnderLimits
        (smallGreeting.tokens ++ [⟨.endOfInput, ⟨37, 37⟩⟩]) smallGreeting.expr d := by
  have hparse : strictly.parse (smallGreeting.tokens ++ [⟨.endOfInput, ⟨37, 37⟩⟩])
      = .ok smallGreeting.expr :=
    parse_of_derivation rfl rfl rfl smallGreeting_passing
  exact ⟨hparse, limits_cut hparse⟩

end UiScript.ParseRules
