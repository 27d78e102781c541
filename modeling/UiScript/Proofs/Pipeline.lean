/-
From a source to its result, one stage after the other: tokens, a program,
and its execution. A failure of a stage is the failure of the whole.

# Main statements

* `parseUnder_eq`: the program of a source, by its tokens.
* `interpret_of_parse_ok`: the result of a source, by its program.
* `interpret_error`: what fails has no program, or its program fails.
* `parseUnder_of_error`, `parseUnder_ne_execution`: failures of other phases
  than the execution are those of reading the program.
* `interpret_name`: a source that is nothing but a name is a call of it.
-/
import UiScript.Interpreter.Basic
import UiScript.Proofs.Execution.Actions
import UiScript.Proofs.Grammar.Acceptance
import UiScript.Proofs.Scanning.Bounds

namespace UiScript.Interpreter

open Execution

variable {σ : Type} {i : Interpreter} {table : Table σ} {source : String}

/-- The program of a source is that of its tokens. There are two phases in it,
and the first one that fails tells the failure. -/
theorem parseUnder_eq (policy : Policy) :
    i.parseUnder policy source =
      match Token.ofSource source with
      | .error e => .error (.lexical e)
      | .ok tokens =>
        ((⟨policy, i.config.options⟩ : ParseRules).parse tokens).mapError .parsing := by
  unfold parseUnder tokenize
  cases Token.ofSource source <;> rfl

theorem parseUnder_eq_ok_iff {policy : Policy} {program : Expr} :
    i.parseUnder policy source = .ok program ↔
      ∃ tokens, Token.ofSource source = .ok tokens
        ∧ (⟨policy, i.config.options⟩ : ParseRules).parse tokens = .ok program := by
  rw [parseUnder_eq]
  cases Token.ofSource source with
  | error e => simp
  | ok tokens =>
    rw [ParseRules.mapError_eq_ok_iff]
    simp

/-- The result of a source is that of its program. Parsing leaves no other
trace: the run is that of the program against the table. -/
theorem interpret_of_parse_ok {program : Expr}
    (h : i.parseUnder (i.policyFor table) source = .ok program) (state : σ) :
    i.interpret table source state
      = (((execute table program).run state).1.mapError .execution,
        ((execute table program).run state).2) := by
  rw [interpret, h]
  rfl

/-- A source that fails has no program, or its program fails. In the first
case the host is left alone. -/
theorem interpret_error {failure : Failure} {state : σ}
    (h : (i.interpret table source state).1 = .error failure) :
    i.parseUnder (i.policyFor table) source = .error failure
      ∨ ∃ program e, i.parseUnder (i.policyFor table) source = .ok program
        ∧ ((execute table program).run state).1 = .error e ∧ failure = .execution e := by
  cases hparse : i.parseUnder (i.policyFor table) source with
  | error e =>
    rw [interpret_of_parse_error hparse] at h
    cases h
    exact .inl rfl
  | ok program =>
    rw [interpret_of_parse_ok hparse] at h
    cases hresult : ((execute table program).run state).1 with
    | ok value =>
      rw [hresult] at h
      cases h
    | error e =>
      rw [hresult] at h
      cases h
      exact .inr ⟨program, e, rfl, hresult, rfl⟩

/-- The phases before the execution end without it. Their failures are those
of the parser, and the table does not come into it but for the policy. -/
theorem parseUnder_of_error {failure : Failure} {state : σ}
    (h : (i.interpret table source state).1 = .error failure)
    (hphase : failure.phase ≠ .execution) :
    i.parseUnder (i.policyFor table) source = .error failure := by
  refine (interpret_error h).resolve_right fun hexecuted => ?_
  obtain ⟨program, e, -, -, rfl⟩ := hexecuted
  exact hphase rfl

/-- What has no program fails before the execution. -/
theorem parseUnder_ne_execution {policy : Policy} (e : ExecutionError) :
    i.parseUnder policy source ≠ .error (.execution e) := by
  rw [parseUnder_eq]
  cases Token.ofSource source with
  | error lexical => simp
  | ok tokens =>
    dsimp only
    intro h
    cases hparse : ParseRules.parse _ tokens <;> rw [hparse] at h <;> cases h

-- ===================================================================== names

/-- A name without anything around it. -/
def bareName (name : String) (span : Span) : Derivation.Program :=
  ⟨[], .mk (.call (.mk name span .none .none)) .none, .done []⟩

theorem bareName_passing {rules : ParseRules} {name : String}
    (h : rules.policy.violation? name = none) (span : Span) :
    rules.Passing (bareName name span) := by
  refine ⟨⟨⟨⟨?_, ?_⟩, trivial⟩, trivial⟩, Nat.zero_le _, Nat.zero_le _, ?_⟩
  · intro hnext
    cases hnext
  · intro fence hnext
    cases fence <;> cases hnext
  · refine ParseRules.admits_call_iff.2 ⟨?_, ⟨h, inOrder_nil⟩, ?_, ?_⟩
    · intro r hr
      cases hr
    · intro a ha
      cases ha
    · intro b hb
      cases hb

theorem execute_name (name : String) (span : Span) :
    execute table (.call ⟨none, name, [], none, span⟩)
      = adaptFailure (·.withSpan span) (dispatch table none ⟨name, [], [], none, span⟩) := by
  rw [execute, evaluate_call]
  rfl

/-- A source that is nothing but a name is a call of that name. -/
theorem parseUnder_name {policy : Policy} {name : String} {stop : Nat}
    (hname : policy.violation? name = none) (hwidth : Text.width source.toList ≤ Span.maxOffset)
    (hscan : Token.scan [] 0 source.toList
      = .ok [⟨.identifier name, ⟨0, stop⟩⟩, ⟨.endOfInput, ⟨stop, stop⟩⟩]) :
    i.parseUnder policy source = .ok (.call ⟨none, name, [], none, ⟨0, stop⟩⟩) := by
  have hsource : Token.ofSource source
      = .ok ((bareName name ⟨0, stop⟩).tokens ++ [⟨.endOfInput, ⟨stop, stop⟩⟩]) := by
    rw [Token.ofSource_eq_scan hwidth, hscan]
    rfl
  have hvisible : ∀ t ∈ (bareName name ⟨0, stop⟩).tokens, t.isComment = false := by
    intro t ht
    rw [List.mem_singleton.1 (ht : t ∈ [⟨.identifier name, ⟨0, stop⟩⟩])]
    rfl
  have hend : Token.front .endOfInput [⟨.endOfInput, ⟨stop, stop⟩⟩] = .endOfInput := rfl
  exact parseUnder_eq_ok_iff.2 ⟨_, hsource, ParseRules.parse_of_derivation rfl
    (ParseRules.filter_visible _ hvisible) hend (bareName_passing hname ⟨0, stop⟩)⟩

/-- What such a source comes to is what the operation with that name answers.
This is the smallest source that runs a handler, and serves to show that there
are some. -/
theorem interpret_name {name : String} {stop : Nat} {state : σ}
    (hname : (i.policyFor table).violation? name = none)
    (hwidth : Text.width source.toList ≤ Span.maxOffset)
    (hscan : Token.scan [] 0 source.toList
      = .ok [⟨.identifier name, ⟨0, stop⟩⟩, ⟨.endOfInput, ⟨stop, stop⟩⟩]) :
    i.interpret table source state =
      let outcome := (adaptFailure (·.withSpan ⟨0, stop⟩)
        (dispatch table none ⟨name, [], [], none, ⟨0, stop⟩⟩)).run state
      (outcome.1.mapError .execution, outcome.2) := by
  rw [interpret_of_parse_ok (parseUnder_name hname hwidth hscan), execute_name]

/-- Every name may be called that is not denied. -/
def openly : Interpreter := ⟨⟨64, 128, false, true⟩, none⟩

theorem scan_divider :
    Token.scan [] 0 "divider".toList
      = .ok [⟨.identifier "divider", ⟨0, 7⟩⟩, ⟨.endOfInput, ⟨7, 7⟩⟩] :=
  Token.scan_lexeme rfl rfl rfl

end UiScript.Interpreter
