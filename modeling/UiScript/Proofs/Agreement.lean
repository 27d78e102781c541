/-
Reading a source and running it agree. An interpreter that is given a list of
names, or that goes by the denylist alone, reads a source that it is to run
as it reads any other. One that takes the names from a table refuses more of
what it is to run; but what it lets pass is the same program, as the rules
only ever decide whether a program is read, and not which one.

# Main statements

* `parse_of_looser`: what is read under some rules is read under looser ones.
* `sourcePolicy_eq_policyFor`, `violation?_sourcePolicy`: the two policies of
  an interpreter.
* `interpret_agrees`: a run, next to reading the source alone.
-/
import UiScript.Proofs.Filtering
import UiScript.Proofs.Pipeline
import UiScript.Proofs.Vocabulary

namespace UiScript

/-- Only an execution fails in the phase of the execution. -/
theorem Failure.phase_eq_execution_iff {failure : Failure} :
    failure.phase = .execution ↔ ∃ e, failure = .execution e := by
  rcases failure with _ | (_ | _) | _ <;> simp [phase]

namespace ParseRules

variable {policy policy' : Policy} {options : ParseOptions}

/-- A derivation that passes also passes under a policy that allows every name
which the other one allows. -/
theorem Passing.looser
    (hpolicy : ∀ name, policy.violation? name = none → policy'.violation? name = none)
    {d : Derivation.Program} (h : (⟨policy, options⟩ : ParseRules).Passing d) :
    (⟨policy', options⟩ : ParseRules).Passing d := by
  refine ⟨h.greedy, h.fits, h.short, ?_, h.admits.literals⟩
  intro c hc
  obtain ⟨hname, horder⟩ := h.admits.calls c hc
  exact ⟨hpolicy c.method hname, horder⟩

/-- What is read under a policy is read under a looser one, and is the same
program. The second reading makes the moves of the first one, and no word that
the first policy admits is refused by the second. -/
theorem parse_of_looser
    (hpolicy : ∀ name, policy.violation? name = none → policy'.violation? name = none)
    {tokens : List Token} {node : Expr}
    (h : (⟨policy, options⟩ : ParseRules).parse tokens = .ok node) :
    (⟨policy', options⟩ : ParseRules).parse tokens = .ok node := by
  obtain ⟨hmarks, d, rest, hseen, hrest, -, hpassing, rfl⟩ := derivation_of_parse h
  exact parse_of_derivation hmarks hseen hrest (hpassing.looser hpolicy)

end ParseRules

namespace Interpreter

open Execution

variable {σ : Type}

-- =================================================================== policies

/-- Where the names do not come from the table, a source is run under the
policy under which it is read. -/
theorem sourcePolicy_eq_policyFor {i : Interpreter}
    (h : i.config.denylistOnly = true ∨ i.allowlist.isSome = true) (table : Table σ) :
    i.sourcePolicy = i.policyFor table := by
  unfold sourcePolicy policyFor
  cases hdenylist : i.config.denylistOnly with
  | true => cases i.allowlist <;> rfl
  | false =>
    rw [hdenylist] at h
    cases hlist : i.allowlist with
    | some names => rfl
    | none =>
      rw [hlist] at h
      rcases h with h | h <;> cases h

/-- A name that may be called from a source that is run may be called from one
that is read. Reading has no table whose names could be listed, and a list
that is configured holds for both. -/
theorem violation?_sourcePolicy {i : Interpreter} {table : Table σ} {name : String}
    (h : (i.policyFor table).violation? name = none) : i.sourcePolicy.violation? name = none := by
  by_cases hfixed : i.config.denylistOnly = true ∨ i.allowlist.isSome = true
  · rw [sourcePolicy_eq_policyFor hfixed table]
    exact h
  · obtain ⟨hdenylist, hlist⟩ := not_or.1 hfixed
    have hdenylist : i.config.denylistOnly = false := Bool.eq_false_iff.2 hdenylist
    have hlist : i.allowlist = none := by simpa using hlist
    have hopen : i.sourcePolicy = .denylistOnly := by
      unfold sourcePolicy
      rw [hlist]
    rw [policyFor_table hdenylist hlist, Policy.violation?_listing] at h
    rw [hopen]
    exact (Option.or_eq_none_iff.1 h).1

/-- A program that is run is also read. -/
theorem parse_of_parseUnder {i : Interpreter} {table : Table σ} {source : String} {program : Expr}
    (h : i.parseUnder (i.policyFor table) source = .ok program) :
    i.parse source = .ok program := by
  obtain ⟨tokens, htokens, hparse⟩ := parseUnder_eq_ok_iff.1 h
  exact parseUnder_eq_ok_iff.2
    ⟨tokens, htokens, ParseRules.parse_of_looser (fun _ => violation?_sourcePolicy) hparse⟩

/-- A source that is not read fails before the execution. -/
theorem phase_of_parseUnder {i : Interpreter} {policy : Policy} {source : String}
    {failure : Failure} (h : i.parseUnder policy source = .error failure) :
    failure.phase ≠ .execution := by
  intro hphase
  obtain ⟨e, rfl⟩ := Failure.phase_eq_execution_iff.1 hphase
  exact parseUnder_ne_execution e h

-- ======================================================================= runs

/-- What comes to a value, or fails while it is executed, is read as the
program that was executed. If the names do not come from the table, a run
fails before the execution exactly as reading the source fails. -/
theorem interpret_agrees (i : Interpreter) (table : Table σ) (source : String) (state : σ) :
    ((∀ failure, (i.interpret table source state).1 = .error failure →
        failure.phase = .execution) →
      ∃ program, i.parse source = .ok program
        ∧ i.parseUnder (i.policyFor table) source = .ok program
        ∧ i.interpret table source state
          = (((execute table program).run state).1.mapError .execution,
            ((execute table program).run state).2))
    ∧ (i.config.denylistOnly = true ∨ i.allowlist.isSome = true →
      ∀ failure, ((i.interpret table source state).1 = .error failure
          ∧ failure.phase ≠ .execution) ↔ i.parse source = .error failure) := by
  constructor
  · intro hexecuted
    cases hparse : i.parseUnder (i.policyFor table) source with
    | ok program =>
      exact ⟨program, parse_of_parseUnder hparse, rfl, interpret_of_parse_ok hparse state⟩
    | error failure =>
      have hresult := congrArg Prod.fst (interpret_of_parse_error hparse state)
      exact absurd (hexecuted failure hresult) (phase_of_parseUnder hparse)
  · intro hfixed failure
    -- with a fixed policy a source is read in the same way, whatever the table
    have hparse : i.parse source = i.parseUnder (i.policyFor table) source := by
      rw [parse, sourcePolicy_eq_policyFor hfixed table]
    rw [hparse]
    constructor
    · intro hboth
      obtain ⟨hfails, hphase⟩ := hboth
      exact parseUnder_of_error hfails hphase
    · intro hfails
      exact ⟨congrArg Prod.fst (interpret_of_parse_error hfails state), phase_of_parseUnder hfails⟩

/-- Only one name may be called, whatever a table offers. -/
def narrowly : Interpreter := ⟨.standard, some ["text"]⟩

/-- A name that the table offers: without a list it is called, in the one
program that there is, and with a list that does not have it, the run and the
reading fail alike. -/
theorem interpret_agrees_divider :
    (standard.parse "divider" = .ok (.call ⟨none, "divider", [], none, ⟨0, 7⟩⟩)
      ∧ (standard.interpret Standard.table "divider" ()).1 = .ok (.element (.ofTag "hr")))
    ∧ ∃ rejection, (narrowly.interpret Standard.table "divider" ()).1
        = .error (.parsing (.refused rejection))
      ∧ narrowly.parse "divider" = .error (.parsing (.refused rejection)) := by
  have hoffered : (standard.policyFor Standard.table).violation? "divider" = none := by
    rw [policyFor_table rfl rfl]
    refine Policy.violation?_eq_none_iff.2 ⟨by decide, by decide, by decide, by decide, ?_⟩
    intro names hnames
    obtain rfl := Option.some.inj hnames
    exact Table.mem_names.2 rfl
  have hread := parseUnder_name (i := standard) hoffered (by decide) scan_divider
  have hrun : standard.interpret Standard.table "divider" ()
      = (.ok (.element (.ofTag "hr")), ()) := by
    rw [interpret_name hoffered (by decide) scan_divider]
    rfl
  refine ⟨⟨?_, congrArg Prod.fst hrun⟩, ?_⟩
  · obtain ⟨program, hparse, hsame, -⟩ :=
      (interpret_agrees standard Standard.table "divider" ()).1 (by rw [hrun]; exact nofun)
    rw [hparse, ← hsame]
    exact hread
  · have hopen : openly.parseUnder .denylistOnly "divider"
        = .ok (.call ⟨none, "divider", [], none, ⟨0, 7⟩⟩) :=
      parseUnder_name (by decide) (by decide) scan_divider
    obtain ⟨tokens, htokens, hparse⟩ := parseUnder_eq_ok_iff.1 hopen
    have hlisted : narrowly.policyFor Standard.table = .listing ["text"] := rfl
    have hunlisted : "divider" ∉ ["text"] := by decide
    obtain ⟨rejection, hrefused⟩ :=
      parseUnder_unoffered (i := narrowly) htokens hparse ⟨"divider", by decide, hunlisted⟩
    rw [← hlisted] at hrefused
    have hfails := congrArg Prod.fst (interpret_of_parse_error hrefused ())
    exact ⟨rejection, hfails,
      ((interpret_agrees narrowly Standard.table "divider" ()).2 (.inr rfl) _).1 ⟨hfails, nofun⟩⟩

end Interpreter

end UiScript
