/-
A program calls nothing that its table does not offer. Without names of its
own, an interpreter takes the names that may be called from the table, so a
name that is not offered is refused while the program is read; and a name
that is offered is known when it is called, even if it is called in a role
in which there is no handler for it.

So nothing fails because an operation is unknown, unless a handler says so of
its own accord.

# Main statements

* `offered_of_parse`: every name that is called is offered.
* `parseUnder_unoffered`: a program with a name that is not offered.
* `dispatch_unhandled_offered`: a call without a handler, of an offered name.
* `interpret_never_unknown`: no operation is unknown.
-/
import UiScript.Proofs.Filtering
import UiScript.Proofs.Pipeline
import UiScript.Proofs.Standard.Contributions

namespace UiScript

open Execution

variable {σ : Type} {table : Table σ}

-- ================================================================== failures

/-- A failure that does not say that an operation is unknown. -/
def ExecutionError.Known (e : ExecutionError) : Prop := ∀ name, e.cause ≠ .unknownOperation name

/-- What blames no name does not blame an unknown one. -/
theorem ExecutionError.Plain.known {e : ExecutionError} (h : e.Plain) : e.Known := by
  intro name hcause
  have hblames := h.blames
  rw [hcause] at hblames
  cases hblames

/-- No handler of the standard table says that an operation is unknown. -/
theorem Standard.table_failsWith_known : Standard.table.FailsWith ExecutionError.Known :=
  table_failsWith_plain.mono fun _ he => he.known

namespace Execution

/-- An offered name that is called in a role in which there is no handler for
it is blamed together with what it was called on. -/
theorem dispatch_unhandled_offered {receiver : Option Value} {inv : Invocation}
    (hoffered : inv.method ∈ table.names) (h : table.handles inv.method receiver = false) :
    dispatch table receiver inv
      = failWith (.noSuchMethod inv.method (describeTarget receiver)) := by
  rw [dispatch_unhandled h, if_pos (Table.mem_names.1 hoffered)]

/-- If every name that is called is offered, only a handler can say that an
operation is unknown. -/
theorem evaluate_known (hhandlers : table.FailsWith ExecutionError.Known) {e : Expr}
    (hoffered : ∀ c ∈ e.calls, c.method ∈ table.names) (scope : Scope) :
    (evaluate table scope e).Fails ExecutionError.Known := by
  refine evaluate_fails (fun e scope he => he) e scope fun c hc receiver args children => ?_
  have hdispatch : (dispatch table receiver (invocationOf c.method args children c.span)).Fails
      ExecutionError.Known := by
    refine dispatch_fails hhandlers fun hunhandled => ?_
    rw [dispatch_unhandled_offered (hoffered c hc) hunhandled]
    refine .failWith fun name hcause => ?_
    cases hcause
  exact hdispatch.mono fun e he => he

end Execution

-- =================================================================== reading

namespace Interpreter

variable {i : Interpreter} {source : String}

/-- With nothing else to go by, the names that may be called are those of the
table. -/
theorem policyFor_table (hdenylist : i.config.denylistOnly = false) (hlist : i.allowlist = none)
    (table : Table σ) : i.policyFor table = .listing table.names := by
  unfold policyFor
  rw [hdenylist, hlist]
  rfl

/-- Every name that is called in a program is listed, if the policy lists
names. So no call of it can be unknown to the table. -/
theorem offered_of_parse {names : List String} {program : Expr}
    (h : i.parseUnder (.listing names) source = .ok program) :
    ∀ c ∈ program.calls, c.method ∈ names := by
  intro c hc
  obtain ⟨tokens, -, hparse⟩ := parseUnder_eq_ok_iff.1 h
  obtain ⟨-, d, rest, -, -, -, hpassing, rfl⟩ := ParseRules.derivation_of_parse hparse
  have hadmitted : (Policy.listing names).violation? c.method = none :=
    (hpassing.admits.calls c hc).1
  obtain ⟨-, -, -, -, hlisted⟩ := Policy.violation?_eq_none_iff.1 hadmitted
  exact hlisted names rfl

/-- A program that calls a name that is not listed is refused. This happens
while the source is read, before anything of it is executed. -/
theorem parseUnder_unoffered {names : List String} {tokens : List Token} {program : Expr}
    (htokens : Token.ofSource source = .ok tokens)
    (hparse : (ParseRules.unfiltered i.config.maxDepth i.config.maxChain).parse tokens
      = .ok program)
    (hname : ∃ name ∈ program.methodNames, name ∉ names) :
    ∃ rejection, i.parseUnder (.listing names) source = .error (.parsing (.refused rejection)) := by
  obtain ⟨words, rest, hroles, -, hfiltered⟩ :=
    ParseRules.parse_of_unfiltered names i.config.strictLiterals hparse
  cases hfind : words.findSome? (ParseRules.offence names i.config.strictLiterals) with
  | none =>
    have hall := (ParseRules.unobjectionable_iff hroles).2 (List.findSome?_eq_none_iff.1 hfind)
    obtain ⟨name, hcalled, hunlisted⟩ := hname
    exact absurd (hall.1 name hcalled) hunlisted
  | some rejection =>
    have hrules : (⟨.listing names, i.config.options⟩ : ParseRules)
        = ParseRules.filtered names i.config.strictLiterals i.config.maxDepth i.config.maxChain :=
      rfl
    refine ⟨rejection, ?_⟩
    rw [hfind] at hfiltered
    rw [parseUnder_eq, htokens, hrules]
    dsimp only
    rw [hfiltered]
    rfl

-- ==================================================================== running

/-- If the table says what may be called, no run ends because an operation is
unknown, whatever the table offers and whatever its handlers do, as long as
they do not say so themselves. A name that is not offered is refused before
anything is executed, and what is executed calls offered names only; where
there is no handler for one of them on such a receiver, this is what is
blamed. The handlers of the standard table do not call operations unknown. -/
theorem interpret_never_unknown (hdenylist : i.config.denylistOnly = false)
    (hlist : i.allowlist = none) :
    Standard.table.FailsWith ExecutionError.Known
      ∧ ∀ {σ : Type} {table : Table σ}, table.FailsWith ExecutionError.Known →
        ∀ (source : String) (state : σ),
          (∀ e name, (i.interpret table source state).1 = .error (.execution e) →
            e.cause ≠ .unknownOperation name)
          ∧ (∀ tokens program, Token.ofSource source = .ok tokens →
            (ParseRules.unfiltered i.config.maxDepth i.config.maxChain).parse tokens
              = .ok program →
            (∃ name ∈ program.methodNames, name ∉ table.names) →
            ∃ rejection, i.interpret table source state
              = (.error (.parsing (.refused rejection)), state))
          ∧ ∀ program, i.parseUnder (i.policyFor table) source = .ok program →
            ∀ c ∈ program.calls, c.method ∈ table.names ∧ ∀ receiver args children,
              table.handles c.method receiver = false →
              dispatch table receiver (invocationOf c.method args children c.span)
                = failWith (.noSuchMethod c.method (describeTarget receiver)) := by
  refine ⟨Standard.table_failsWith_known, ?_⟩
  intro σ table hhandlers source state
  have hpolicy := policyFor_table hdenylist hlist table
  -- every name that is called in a program that was parsed is one of the table
  have hoffered : ∀ program, i.parseUnder (i.policyFor table) source = .ok program →
      ∀ c ∈ program.calls, c.method ∈ table.names := by
    intro program hparse
    rw [hpolicy] at hparse
    exact offered_of_parse hparse
  refine ⟨?_, ?_, ?_⟩
  · intro e name he
    obtain hread | ⟨program, e', hparse, hrun, hsame⟩ := interpret_error he
    · exact absurd hread (parseUnder_ne_execution e)
    · obtain rfl : e = e' := Failure.execution.inj hsame
      exact evaluate_known hhandlers (hoffered program hparse) .root state e hrun name
  · intro tokens program htokens hparse hname
    obtain ⟨rejection, hrefused⟩ := parseUnder_unoffered htokens hparse hname
    rw [← hpolicy] at hrefused
    exact ⟨rejection, interpret_of_parse_error hrefused state⟩
  · intro program hparse c hc
    refine ⟨hoffered program hparse c hc, ?_⟩
    intro receiver args children hunhandled
    exact dispatch_unhandled_offered (hoffered program hparse c hc) hunhandled

/-- A modifier without a receiver is offered, and there is no operation with
its name. -/
theorem interpret_never_unknown_padding :
    standard.config.denylistOnly = false ∧ standard.allowlist = none
      ∧ standard.interpret Standard.table "padding" ()
        = (.error (.execution ⟨.noSuchMethod "padding" "the top level", some ⟨0, 7⟩, none⟩), ())
      ∧ ∀ name, ExecutionError.Cause.noSuchMethod "padding" "the top level"
        ≠ .unknownOperation name := by
  have hname : (standard.policyFor Standard.table).violation? "padding" = none := by
    rw [policyFor_table rfl rfl]
    refine Policy.violation?_eq_none_iff.2 ⟨by decide, by decide, by decide, by decide, ?_⟩
    intro names hnames
    obtain rfl := Option.some.inj hnames
    exact Table.mem_names.2 rfl
  have hscan : Token.scan [] 0 "padding".toList
      = .ok [⟨.identifier "padding", ⟨0, 7⟩⟩, ⟨.endOfInput, ⟨7, 7⟩⟩] :=
    Token.scan_lexeme rfl rfl rfl
  have hrun : standard.interpret Standard.table "padding" ()
      = (.error (.execution ⟨.noSuchMethod "padding" "the top level", some ⟨0, 7⟩, none⟩), ()) := by
    rw [interpret_name hname (by decide) hscan]
    rfl
  refine ⟨rfl, rfl, hrun, ?_⟩
  obtain ⟨hstandard, hall⟩ := interpret_never_unknown (i := standard) rfl rfl
  intro name
  exact (hall hstandard "padding" ()).1 _ name (congrArg Prod.fst hrun)

end Interpreter

end UiScript
