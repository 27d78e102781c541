/-
The loads of a derivation against the limits. A delimiter is one level deeper
than the one around it, and a link is the next one of its chain, so the
limits are reached before they are passed: the first load that is too much
is too much by one. There is none exactly if the derivation is not deeper
and has no longer chain than allowed.

# Main statements

* `Measured.append`, `Measured.opening`, `Measured.link`: how the loads of a
  derivation are measured by its parts.
* `Chain.measured` and its kin: the loads of a derivation are measured by its
  depth and its longest chain.
-/
import UiScript.Proofs.Grammar.Inspection

namespace UiScript

/-- A load that is too much by one, and what is said of it. -/
def Load.Tips (maxDepth maxChain : Nat) : Load → SyntaxError → Prop
  | .opening level span found, e =>
    level = maxDepth + 1 ∧ e = ⟨span, .nestingTooDeep maxDepth found⟩
  | .link number span, e =>
    number = maxChain + 1 ∧ e = ⟨span, .chainTooLong maxChain (.punctuation '.')⟩

/-- A load that tips a limit is what is said of it. -/
theorem Load.Tips.excess {maxDepth maxChain : Nat} {load : Load} {e : SyntaxError}
    (h : load.Tips maxDepth maxChain e) : load.excess? maxDepth maxChain = some e := by
  cases load with
  | opening level span found =>
    obtain ⟨rfl, rfl⟩ := h
    exact if_neg (Nat.not_succ_le_self maxDepth)
  | link number span =>
    obtain ⟨rfl, rfl⟩ := h
    exact if_neg (Nat.not_succ_le_self maxChain)

/-- Whether loads fit the limits: either none is too much, and they do, or the
first that is too much is too much by one, and they do not. -/
inductive Measured (maxDepth maxChain : Nat) (loads : List Load) (fits : Prop) : Prop where
  | within (hloads : ∀ load ∈ loads, load.excess? maxDepth maxChain = none) (hfits : fits)
  | beyond (before after : List Load) (load : Load) (e : SyntaxError)
    (hloads : loads = before ++ load :: after)
    (hbefore : ∀ load ∈ before, load.excess? maxDepth maxChain = none)
    (hload : load.Tips maxDepth maxChain e) (hfits : ¬ fits)

namespace Measured

variable {maxDepth maxChain level number : Nat} {loads more : List Load} {p q : Prop}

/-- Without loads the limits are kept. -/
theorem nil (h : p) : Measured maxDepth maxChain [] p := .within (by simp) h

/-- The limits may be told in another way that comes to the same. -/
theorem congr (h : p ↔ q) (hp : Measured maxDepth maxChain loads p) :
    Measured maxDepth maxChain loads q := by
  cases hp with
  | within hloads hfits => exact .within hloads (h.1 hfits)
  | beyond before after load e hloads hbefore hload hfits =>
    exact .beyond before after load e hloads hbefore hload (mt h.2 hfits)

/-- Of two lists of loads the first one that is too much is in the first list,
or the first list fits and it is in the second. -/
theorem append (h : Measured maxDepth maxChain loads p) (k : Measured maxDepth maxChain more q) :
    Measured maxDepth maxChain (loads ++ more) (p ∧ q) := by
  cases h with
  | beyond before after load e hloads hbefore hload hfits =>
    refine .beyond before (after ++ more) load e ?_ hbefore hload fun hboth => hfits hboth.1
    rw [hloads, List.append_assoc, List.cons_append]
  | within hloads hfits =>
    cases k with
    | within hmore hfits' =>
      refine .within (fun load hload => ?_) ⟨hfits, hfits'⟩
      exact (List.mem_append.1 hload).elim (hloads load) (hmore load)
    | beyond before after load e hmore hbefore hload hfits' =>
      refine .beyond (loads ++ before) after load e ?_ (fun load hmem => ?_) hload
        fun hboth => hfits' hboth.2
      · rw [hmore, List.append_assoc]
      · exact (List.mem_append.1 hmem).elim (hloads load) (hbefore load)

/-- What comes behind a load counts only if the load is not too much. -/
theorem cons {load : Load}
    (hload : load.excess? maxDepth maxChain = none ∧ p
      ∨ (∃ e, load.Tips maxDepth maxChain e) ∧ ¬ p)
    (h : p → Measured maxDepth maxChain loads q) :
    Measured maxDepth maxChain (load :: loads) (p ∧ q) := by
  rcases hload with ⟨hload, hp⟩ | ⟨⟨e, hload⟩, hp⟩
  · have hfirst : Measured maxDepth maxChain [load] p := .within (by simpa using hload) hp
    exact hfirst.append (h hp)
  · exact .beyond [] loads load e rfl (by simp) hload fun hboth => hp hboth.1

/-- A delimiter is one level deeper than what is around it. -/
theorem opening {span : Span} {found : Token.Kind} (hlevel : level ≤ maxDepth)
    (h : level + 1 ≤ maxDepth → Measured maxDepth maxChain loads q) :
    Measured maxDepth maxChain (.opening (level + 1) span found :: loads)
      (level + 1 ≤ maxDepth ∧ q) := by
  refine cons ?_ h
  by_cases hnext : level + 1 ≤ maxDepth
  · exact .inl ⟨if_pos hnext, hnext⟩
  · exact .inr ⟨⟨_, by omega, rfl⟩, hnext⟩

/-- A link is the next one of its chain. -/
theorem link {span : Span} (hnumber : number ≤ maxChain)
    (h : number + 1 ≤ maxChain → Measured maxDepth maxChain loads q) :
    Measured maxDepth maxChain (.link (number + 1) span :: loads)
      (number + 1 ≤ maxChain ∧ q) := by
  refine cons ?_ h
  by_cases hnext : number + 1 ≤ maxChain
  · exact .inl ⟨if_pos hnext, hnext⟩
  · exact .inr ⟨⟨_, by omega, rfl⟩, hnext⟩

/-- What fits has no load that is too much. -/
theorem excess_eq_none (h : Measured maxDepth maxChain loads p) (hp : p) :
    ∀ load ∈ loads, load.excess? maxDepth maxChain = none := by
  cases h with
  | within hloads hfits => exact hloads
  | beyond before after load e hloads hbefore hload hfits => exact absurd hp hfits

end Measured

-- =============================================================== derivations

namespace Derivation

variable {maxDepth maxChain : Nat}

mutual
/-- The loads of a derivation are measured by its depth and its longest chain.
The loads fit exactly if the level where the derivation starts leaves room for
its depth, and no chain in it is too long. -/
theorem Chain.measured : ∀ (d : Chain) {level : Nat}, level ≤ maxDepth →
    Measured maxDepth maxChain (loadsOf (d.checks level))
      (level + d.depth ≤ maxDepth ∧ d.longest ≤ maxChain)
  | .mk first links, level, h => by
    rw [Chain.checks, loadsOf_append]
    refine ((first.measured h).append (links.measured h (Nat.zero_le _))).congr ?_
    simp only [Chain.depth, Chain.longest]
    omega

/-- `number` links of the chain come before. -/
theorem Links.measured : ∀ (d : Links) {level number : Nat}, level ≤ maxDepth →
    number ≤ maxChain → Measured maxDepth maxChain (loadsOf (d.checks level (number + 1)))
      (level + d.depth ≤ maxDepth ∧ d.longest ≤ maxChain ∧ number + d.count ≤ maxChain)
  | .none, level, number, h, hnumber => .nil ⟨h, Nat.zero_le _, hnumber⟩
  | .more point call rest, level, number, h, hnumber => by
    rw [Links.checks, loadsOf, loadsOf_append]
    refine (Measured.link hnumber fun hnext =>
      (call.measured h).append (rest.measured h hnext)).congr ?_
    simp only [Links.depth, Links.longest, Links.count]
    omega

/-- The loads of a primary: parentheses are a delimiter, one level deeper than
where they stand. -/
theorem Primary.measured : ∀ (d : Primary) {level : Nat}, level ≤ maxDepth →
    Measured maxDepth maxChain (loadsOf (d.checks level))
      (level + d.depth ≤ maxDepth ∧ d.longest ≤ maxChain)
  | .call call, level, h => call.measured h
  | .literal .., level, h => .nil ⟨h, Nat.zero_le _⟩
  | .parenthesized _ inner _, level, h => by
    rw [Primary.checks, loadsOf]
    refine (Measured.opening h fun hnext => inner.measured hnext).congr ?_
    simp only [Primary.depth, Primary.longest]
    omega

/-- The loads of a call are those of its arguments and of its block, which
stand side by side. -/
theorem Call.measured : ∀ (d : Call) {level : Nat}, level ≤ maxDepth →
    Measured maxDepth maxChain (loadsOf (d.checks level))
      (level + d.depth ≤ maxDepth ∧ d.longest ≤ maxChain)
  | .mk _ _ args block, level, h => by
    rw [Call.checks, loadsOf, loadsOf_append]
    refine ((args.measured h).append (block.measured h)).congr ?_
    simp only [Call.depth, Call.longest]
    omega

theorem Arguments.measured : ∀ (d : Arguments) {level : Nat}, level ≤ maxDepth →
    Measured maxDepth maxChain (loadsOf (d.checks level))
      (level + d.depth ≤ maxDepth ∧ d.longest ≤ maxChain)
  | .none, level, h => .nil ⟨h, Nat.zero_le _⟩
  | .list _ items _, level, h => by
    rw [Arguments.checks, loadsOf]
    refine (Measured.opening h fun hnext => items.measured hnext).congr ?_
    simp only [Arguments.depth, Arguments.longest]
    omega

/-- The loads of a list of arguments, all on one level. -/
theorem ArgumentList.measured : ∀ (d : ArgumentList) {level : Nat}, level ≤ maxDepth →
    Measured maxDepth maxChain (loadsOf (d.checks level))
      (level + d.depth ≤ maxDepth ∧ d.longest ≤ maxChain)
  | .none, level, h => .nil ⟨h, Nat.zero_le _⟩
  | .last arg, level, h => arg.measured h
  | .more arg _ rest, level, h => by
    rw [ArgumentList.checks, loadsOf_append]
    refine ((arg.measured h).append (rest.measured h)).congr ?_
    simp only [ArgumentList.depth, ArgumentList.longest]
    omega

theorem Argument.measured : ∀ (d : Argument) {level : Nat}, level ≤ maxDepth →
    Measured maxDepth maxChain (loadsOf (d.checks level))
      (level + d.depth ≤ maxDepth ∧ d.longest ≤ maxChain)
  | .positional value, _, h => value.measured h
  | .named _ _ _ value, _, h => value.measured h

theorem Block.measured : ∀ (d : Block) {level : Nat}, level ≤ maxDepth →
    Measured maxDepth maxChain (loadsOf (d.checks level))
      (level + d.depth ≤ maxDepth ∧ d.longest ≤ maxChain)
  | .none, level, h => .nil ⟨h, Nat.zero_le _⟩
  | .fenced _ _ body _, level, h => by
    rw [Block.checks, loadsOf]
    refine (Measured.opening h fun hnext => body.measured hnext).congr ?_
    simp only [Block.depth, Block.longest]
    omega

/-- The loads of a body, all on one level. -/
theorem Body.measured : ∀ (d : Body) {level : Nat}, level ≤ maxDepth →
    Measured maxDepth maxChain (loadsOf (d.checks level))
      (level + d.depth ≤ maxDepth ∧ d.longest ≤ maxChain)
  | .done _, level, h => .nil ⟨h, Nat.zero_le _⟩
  | .more _ statement rest, level, h => by
    rw [Body.checks, loadsOf_append]
    refine ((statement.measured h).append (rest.measured h)).congr ?_
    simp only [Body.depth, Body.longest]
    omega
end

/-- The loads of a program are measured by its depth and its longest chain. -/
theorem Program.measured (d : Program) (maxDepth maxChain : Nat) :
    Measured maxDepth maxChain d.loads (d.depth ≤ maxDepth ∧ d.longest ≤ maxChain) := by
  refine ((Body.more d.separators d.first d.rest).measured (Nat.zero_le _)).congr ?_
  rw [Nat.zero_add]
  rfl

end Derivation

end UiScript
