/-
Programs cannot reach out of their table. Whatever a source holds, a handler
is run only for a name that stands in the source, that the policy allows and
that is registered in the role in which it is called; and a source that
cannot be read runs no handler at all, wherever it goes wrong.

Handlers are watched at work (`Table.watched`), which changes nothing about
what a source comes to.

# Main statements

* `interpret_watched`: a watched run, next to the plain one.
* `interpret_contained`: only what is permitted is run.
-/
import UiScript.Proofs.Execution.Visits
import UiScript.Proofs.Grammar.Spelling
import UiScript.Proofs.Pipeline
import UiScript.Standard.Table

namespace UiScript.Interpreter

open Execution

variable {σ : Type} (i : Interpreter) (table : Table σ) (source : String)

-- ================================================================ watched runs

theorem policyFor_watched : i.policyFor table.watched = i.policyFor table := by
  rw [policyFor, policyFor, table.names_watched]

/-- A watched run comes to the same as the plain one, and logs only what
serves a call of the program. -/
theorem interpret_watched (state : σ) :
    ∃ log, i.interpret table.watched source (state, [])
        = ((i.interpret table source state).1, (i.interpret table source state).2, log)
      ∧ ∀ h ∈ log, ∃ program, i.parseUnder (i.policyFor table) source = .ok program
        ∧ table.ServesIn program h := by
  have hpolicy := i.policyFor_watched table
  cases hparse : i.parseUnder (i.policyFor table) source with
  | error failure =>
    rw [interpret_of_parse_error hparse, interpret_of_parse_error (hpolicy ▸ hparse)]
    exact ⟨[], rfl, by simp⟩
  | ok program =>
    rw [interpret_of_parse_ok hparse, interpret_of_parse_ok (hpolicy ▸ hparse)]
    obtain ⟨log, hrun, hlog⟩ := evaluate_tracks table program .root state []
    refine ⟨log, ?_, fun h hh => ⟨program, rfl, hlog h hh⟩⟩
    rw [execute, execute, hrun, List.nil_append]

-- ================================================================ containment

/-- What a handler at work must have to do with the source: its name is
spelled by a token, the policy allows it, and it serves a call of the program,
in the role in which it is registered. -/
structure Permits (h : Handled) : Prop where
  spelled : ∃ tokens, Token.ofSource source = .ok tokens ∧ ∃ t ∈ tokens, t.kind = .identifier h.name
  allowed : (i.policyFor table).violation? h.name = none
  serves : ∃ program, i.parseUnder (i.policyFor table) source = .ok program
    ∧ table.ServesIn program h

theorem permits_of_serves {program : Expr} {h : Handled}
    (hparse : i.parseUnder (i.policyFor table) source = .ok program)
    (hserves : table.ServesIn program h) : i.Permits table source h := by
  obtain ⟨tokens, htokens, hprogram⟩ := parseUnder_eq_ok_iff.1 hparse
  obtain ⟨c, hc, hserve⟩ := id hserves
  obtain ⟨-, d, rest, -, -, -, hpassing, rfl⟩ := ParseRules.derivation_of_parse hprogram
  refine ⟨⟨tokens, htokens, ?_⟩, ?_, _, hparse, hserves⟩
  · rw [hserve.name]
    exact ParseRules.spelled_of_parse hprogram c hc
  · rw [hserve.name]
    exact (hpassing.admits.calls c hc).1

/-- Only what is permitted is run, under every configuration, against every
table and for every source; watching it changes neither the result nor the
state that is reached. What is no program that the policy lets pass runs
nothing. -/
theorem interpret_contained (state : σ) :
    let plain := i.interpret table source state
    let watched := i.interpret table.watched source (state, [])
    watched.1 = plain.1 ∧ watched.2.1 = plain.2
      ∧ (∀ h ∈ watched.2.2, i.Permits table source h)
      ∧ ∀ failure, plain.1 = .error failure → failure.phase ≠ .execution →
        watched.2 = (state, []) := by
  intro plain watched
  obtain ⟨log, hrun, hlog⟩ := i.interpret_watched table source state
  refine ⟨congrArg Prod.fst hrun, congrArg (·.2.1) hrun, ?_, ?_⟩
  · intro h hh
    have hmem : h ∈ log := (congrArg (·.2.2) hrun : watched.2.2 = log) ▸ hh
    obtain ⟨program, hparse, hserves⟩ := hlog h hmem
    exact i.permits_of_serves table source hparse hserves
  · intro failure hfailure hphase
    have hparse := parseUnder_of_error hfailure hphase
    rw [← policyFor_watched] at hparse
    show (i.interpret table.watched source (state, [])).2 = _
    rw [interpret_of_parse_error hparse]

/-- The one handler that is run for a bare name is permitted. -/
theorem interpret_contained_divider :
    let log := (openly.interpret Standard.table.watched "divider" ((), [])).2.2
    log = [⟨"divider", none, ⟨"divider", [], [], none, ⟨0, 7⟩⟩⟩]
      ∧ ∀ h ∈ log, openly.Permits Standard.table "divider" h := by
  refine ⟨?_, (openly.interpret_contained Standard.table "divider" ()).2.2.1⟩
  rw [interpret_name (by decide) (by decide) scan_divider]
  rfl

end UiScript.Interpreter
