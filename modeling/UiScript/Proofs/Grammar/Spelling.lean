/-
Names come from the source. Every name that is called in an expression is
spelled by a token of its derivation, so a program calls no name that its
tokens do not hold.

# Main statements

* `Program.spelled`: derivation by derivation.
* `spelled_of_parse`: for a program that is read, whatever its tokens are.
-/
import UiScript.Proofs.Grammar.Acceptance

namespace UiScript

/-- Every name that is called in an expression is spelled by one of the
tokens. -/
def Derivation.Spelled (ts : List Token) (e : Expr) : Prop :=
  ∀ c ∈ e.calls, ∃ t ∈ ts, t.kind = .identifier c.method

theorem Derivation.Program.spelled (d : Derivation.Program) : Spelled d.tokens d.expr := by
  intro c hc
  have hrole : .called c.method ∈ d.roles.map Prod.fst := by
    rw [← d.roles_expr]
    exact Role.called_mem_roles_iff.2 (List.mem_map_of_mem hc)
  obtain ⟨⟨_, span⟩, hword, rfl⟩ := List.mem_map.1 hrole
  rw [← d.roles_tokens] at hword
  exact Token.exists_of_called_mem_roles hword

/-- Every name that is called in a program that is read is spelled by one of
its tokens. -/
theorem ParseRules.spelled_of_parse {rules : ParseRules} {tokens : List Token} {node : Expr}
    (h : rules.parse tokens = .ok node) : Derivation.Spelled tokens node := by
  obtain ⟨-, d, rest, hseen, -, -, -, rfl⟩ := derivation_of_parse h
  intro c hc
  obtain ⟨t, ht, hkind⟩ := d.spelled c hc
  have hmem : t ∈ tokens.filter fun t => !t.isComment := by
    rw [hseen]
    exact List.mem_append_left _ ht
  exact ⟨t, (List.mem_filter.1 hmem).1, hkind⟩

end UiScript
