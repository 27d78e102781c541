/-
What the policy and the rules on arguments ask of a program, said of the
tree alone: every name that is called is allowed, every argument list is in
order, and no string is suspicious if strings are looked at.

# Main statements

* `admits_call_iff`: a call is admitted with its parts.
* `admits_rootOf_iff`: a program is admitted with its statements.
* `refuse_checkName_eq_ok_iff`, `admitLiteral_eq_ok_iff`: what the parser
  looks at is what is asked.
-/
import UiScript.Proofs.Program.Walks
import UiScript.Proofs.Reading.Productions

namespace UiScript

/-- The calls of a program are those of its statements. -/
theorem mem_calls_rootOf {statements : List Expr} {c : Call} :
    c ∈ (ParseRules.rootOf statements).calls ↔ ∃ e ∈ statements, c ∈ e.calls := by
  match statements with
  | [] => exact mem_calls_sequence
  | [only] => simp [ParseRules.rootOf]
  | first :: second :: rest => exact mem_calls_sequence

-- ================================================================ arguments

/-- An argument list is in order if no key repeats, and if no positional
argument follows a named one. -/
structure InOrder (args : List Argument) : Prop where
  nodup : (ParseRules.argumentKeys args).Nodup
  namedLast : args.Pairwise fun a b => a.key?.isSome → b.key?.isSome

instance (args : List Argument) : Decidable (InOrder args) :=
  decidable_of_iff ((ParseRules.argumentKeys args).Nodup
      ∧ args.Pairwise fun a b => a.key?.isSome → b.key?.isSome)
    ⟨fun h => ⟨h.1, h.2⟩, fun h => ⟨h.nodup, h.namedLast⟩⟩

/-- There is no order to be kept among no arguments. -/
theorem inOrder_nil : InOrder [] := ⟨List.nodup_nil, List.Pairwise.nil⟩

/-- Keys are gathered part by part. -/
theorem argumentKeys_append (args bs : List Argument) :
    ParseRules.argumentKeys (args ++ bs)
      = ParseRules.argumentKeys args ++ ParseRules.argumentKeys bs :=
  List.filterMap_append

/-- The parser keeps its arguments the last one first, and so their keys. -/
theorem argumentKeys_reverse (args : List Argument) :
    ParseRules.argumentKeys args.reverse = (ParseRules.argumentKeys args).reverse :=
  List.filterMap_reverse

/-- Arguments that are in order with more behind them are in order on their
own. -/
theorem InOrder.of_append_left {args bs : List Argument} (h : InOrder (args ++ bs)) :
    InOrder args := by
  obtain ⟨hnodup, hlast⟩ := h
  rw [argumentKeys_append] at hnodup
  exact ⟨(List.nodup_append.1 hnodup).1, (List.pairwise_append.1 hlast).1⟩

/-- A named argument may come last exactly if its key is new. -/
theorem inOrder_append_named_iff {args : List Argument} {key : String} {value : Expr}
    {span : Span} :
    InOrder (args ++ [.named key value span])
      ↔ InOrder args ∧ key ∉ ParseRules.argumentKeys args := by
  constructor
  · intro h
    refine ⟨h.of_append_left, fun hmem => ?_⟩
    have hnodup := h.nodup
    rw [argumentKeys_append] at hnodup
    exact (List.nodup_append.1 hnodup).2.2 key hmem key (by simp [ParseRules.argumentKeys,
      Argument.key?]) rfl
  · intro hboth
    obtain ⟨h, hnew⟩ := hboth
    constructor
    · rw [argumentKeys_append]
      refine List.nodup_append.2 ⟨h.nodup, by simp [ParseRules.argumentKeys, Argument.key?], ?_⟩
      intro k hk k' hk'
      simp only [ParseRules.argumentKeys, List.filterMap_cons, Argument.key?, List.filterMap_nil,
        List.mem_singleton] at hk'
      rintro rfl
      exact hnew (hk' ▸ hk)
    · refine List.pairwise_append.2 ⟨h.namedLast, by simp, ?_⟩
      intro a _ b hb _
      rw [List.mem_singleton.1 hb]
      rfl

/-- A positional argument may come last exactly if none is named before it. -/
theorem inOrder_append_positional_iff {args : List Argument} {value : Expr} :
    InOrder (args ++ [.positional value])
      ↔ InOrder args ∧ ParseRules.argumentKeys args = [] := by
  constructor
  · intro h
    refine ⟨h.of_append_left, List.filterMap_eq_nil_iff.2 fun a ha => ?_⟩
    have hlast := (List.pairwise_append.1 h.namedLast).2.2 a ha (.positional value) (by simp)
    cases hk : a.key? with
    | none => rfl
    | some k =>
      rw [hk] at hlast
      cases hlast rfl
  · intro hboth
    obtain ⟨h, hnone⟩ := hboth
    constructor
    · rw [argumentKeys_append, hnone]
      exact List.nodup_nil
    · refine List.pairwise_append.2 ⟨h.namedLast, by simp, ?_⟩
      intro a ha b _ hsome
      rw [List.filterMap_eq_nil_iff.1 hnone a ha] at hsome
      cases hsome

-- ================================================================ admission

namespace ParseRules

variable (rules : ParseRules)

/-- What is asked of a call, apart from its parts. -/
def AdmitsCall (c : Call) : Prop :=
  rules.policy.violation? c.method = none ∧ InOrder c.args

/-- What is asked of a literal. -/
def AdmitsLiteral (value : Literal) : Prop :=
  rules.options.strictLiterals = true →
    ∀ text, value = .string text → Policy.isSuspiciousLiteral text = false

/-- What is asked of an expression: it holds for every call and every literal
in it. -/
structure Admits (e : Expr) : Prop where
  calls : ∀ c ∈ e.calls, rules.AdmitsCall c
  literals : ∀ value ∈ e.literals, rules.AdmitsLiteral value

instance (c : Call) : Decidable (rules.AdmitsCall c) :=
  inferInstanceAs (Decidable (rules.policy.violation? c.method = none ∧ InOrder c.args))

instance (value : Literal) : Decidable (rules.AdmitsLiteral value) :=
  match value with
  | .string text =>
    decidable_of_iff (rules.options.strictLiterals = true → Policy.isSuspiciousLiteral text = false)
      ⟨fun h hstrict _ htext => Literal.string.inj htext ▸ h hstrict,
        fun h hstrict => h hstrict _ rfl⟩
  | .number _ => isTrue fun _ _ h => nomatch h
  | .boolean _ => isTrue fun _ _ h => nomatch h
  | .nil => isTrue fun _ _ h => nomatch h
  | .symbol _ => isTrue fun _ _ h => nomatch h

instance (e : Expr) : Decidable (rules.Admits e) :=
  decidable_of_iff ((∀ c ∈ e.calls, rules.AdmitsCall c)
      ∧ ∀ value ∈ e.literals, rules.AdmitsLiteral value)
    ⟨fun h => ⟨h.1, h.2⟩, fun h => ⟨h.calls, h.literals⟩⟩

variable {rules}

/-- A literal is admitted for what it is. -/
theorem admits_literal_iff {value : Literal} {span : Span} :
    rules.Admits (.literal value span) ↔ rules.AdmitsLiteral value := by
  constructor
  · intro h
    exact h.literals value (by simp [Expr.literals])
  · intro h
    exact ⟨by simp [Expr.calls], by simpa [Expr.literals] using h⟩

/-- A call is admitted with its parts. The receiver, the arguments and the
block are admitted on their own; only the name and the order of the arguments
are the call's. -/
theorem admits_call_iff {c : Call} :
    rules.Admits (.call c)
      ↔ (∀ r, c.receiver = some r → rules.Admits r) ∧ rules.AdmitsCall c
        ∧ (∀ a ∈ c.args, rules.Admits a.value)
        ∧ ∀ b, c.block = some b → ∀ e ∈ b.statements, rules.Admits e := by
  constructor
  · intro hboth
    obtain ⟨hreceiver, hthis, hargs, hblock⟩ := forall_calls_call_iff.1 hboth.calls
    obtain ⟨hreceiver', hargs', hblock'⟩ := forall_literals_call_iff.1 hboth.literals
    exact ⟨fun r hr => ⟨hreceiver r hr, hreceiver' r hr⟩, hthis,
      fun a ha => ⟨hargs a ha, hargs' a ha⟩,
      fun b hb e he => ⟨hblock b hb e he, hblock' b hb e he⟩⟩
  · intro hboth
    obtain ⟨hreceiver, hthis, hargs, hblock⟩ := hboth
    constructor
    · exact forall_calls_call_iff.2 ⟨fun r hr => (hreceiver r hr).calls, hthis,
        fun a ha => (hargs a ha).calls, fun b hb e he => (hblock b hb e he).calls⟩
    · exact forall_literals_call_iff.2 ⟨fun r hr => (hreceiver r hr).literals,
        fun a ha => (hargs a ha).literals, fun b hb e he => (hblock b hb e he).literals⟩

/-- Statements in a sequence are admitted one by one. -/
theorem admits_sequence_iff {b : Block} :
    rules.Admits (.sequence b) ↔ ∀ e ∈ b.statements, rules.Admits e := by
  constructor
  · rintro ⟨hcalls, hliterals⟩ e he
    exact ⟨fun c hc => hcalls c (mem_calls_sequence.2 ⟨e, he, hc⟩),
      fun v hv => hliterals v (mem_literals_sequence.2 ⟨e, he, hv⟩)⟩
  · intro h
    constructor
    · intro c hc
      obtain ⟨e, he, hc⟩ := mem_calls_sequence.1 hc
      exact (h e he).calls c hc
    · intro v hv
      obtain ⟨e, he, hv⟩ := mem_literals_sequence.1 hv
      exact (h e he).literals v hv

/-- A program is admitted with its statements. -/
theorem admits_rootOf_iff {statements : List Expr} :
    rules.Admits (rootOf statements) ↔ ∀ e ∈ statements, rules.Admits e := by
  match statements with
  | [] => exact admits_sequence_iff
  | [only] => simp [rootOf]
  | first :: second :: rest => exact admits_sequence_iff

-- ================================================================ the checks

/-- Changing the failure does not change what comes out. -/
theorem mapError_eq_ok_iff {ε ε' α : Type} {f : ε → ε'} {r : Except ε α} {a : α} :
    r.mapError f = .ok a ↔ r = .ok a := by
  cases r with
  | error e => exact ⟨nofun, nofun⟩
  | ok b =>
    constructor <;> intro h <;> cases h <;> rfl

/-- A refusal changes no success. -/
theorem refuse_eq_ok_iff {α : Type} {r : Except Rejection α} {a : α} :
    refuse r = .ok a ↔ r = .ok a :=
  mapError_eq_ok_iff

/-- The parser lets a name pass if the policy has nothing against it. -/
theorem refuse_checkName_eq_ok_iff {name : String} {span : Span} :
    refuse (rules.policy.checkName name span) = .ok () ↔ rules.policy.violation? name = none := by
  rw [refuse_eq_ok_iff, Policy.checkName_eq_ok_iff, Policy.allows, Option.isNone_iff_eq_none]

/-- The parser lets a literal pass if it is no string, if strings are not
looked at, or if it is not suspicious. -/
theorem admitLiteral_eq_ok_iff {value : Literal} {span : Span} :
    rules.admitLiteral value span = .ok () ↔ rules.AdmitsLiteral value := by
  unfold admitLiteral AdmitsLiteral
  cases value with
  | string text =>
    cases hstrict : rules.options.strictLiterals with
    | false => simp
    | true =>
      simp only [if_true, refuse_eq_ok_iff, Policy.checkLiteral, forall_const,
        Literal.string.injEq, forall_eq']
      cases Policy.isSuspiciousLiteral text <;> simp
  | _ => simp

end ParseRules

end UiScript
