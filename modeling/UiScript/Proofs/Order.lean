/-
The order in which a program is executed. Each call is dispatched after its
receiver, its arguments from left to right and the statements of its block;
no call is dispatched twice, and none at all after the first one that fails.
A dispatch runs its handler once, or once for each element of a fragment.

The order is that of the sites of the program (`Expr.sites`); what is
dispatched is told by a trace, and what is run by the log of an answering
table.

# Main statements

* `Table.Serving.answered`: within a dispatch, nothing is run after a run
  that fails.
* `execute_in_order`: the trace and the log of a program, whether it comes to
  a value or fails.
-/
import UiScript.Proofs.Execution.Trace

namespace UiScript

variable {σ α ε β ρ π : Type}

/-- Only the last record may be of a failure, and none if the whole is a
success. -/
theorem Covers.dropLast {place : ρ → π} {result : ρ → Except ε β} {blames : ρ → ε → Prop}
    {places : List π} {records : List ρ} {outcome : Except ε α}
    (h : Covers place result blames places records outcome) :
    ∀ r ∈ records.dropLast, ∃ b, result r = .ok b := by
  cases outcome with
  | ok a => exact fun r hr => h.2 r (List.dropLast_subset _ hr)
  | error e =>
    obtain ⟨done, last, rest, rfl, -, hdone, -⟩ := h
    rw [List.dropLast_concat]
    exact hdone

/-- Within a dispatch, nothing is run after a run that fails; and if none
fails, nor does the dispatch, unless there is no handler. -/
theorem Table.Serving.answered {table : Table σ} {receiver : Option Value} {inv : Invocation}
    {runs : List Answered} {outcome : Checked Value}
    (h : table.Serving receiver inv runs outcome) :
    (∀ r ∈ runs.dropLast, ∃ v, r.result = .ok v)
      ∧ ∀ v, outcome = .ok v → ∀ r ∈ runs, ∃ w, r.result = .ok w := by
  cases hhandled : table.handles inv.method receiver with
  | false =>
    obtain ⟨rfl, e, rfl⟩ := h.unhandled hhandled
    exact ⟨by simp, by simp⟩
  | true =>
    have hcovers := (h.handled hhandled).covers
    refine ⟨hcovers.dropLast, ?_⟩
    rintro v rfl
    exact hcovers.2

namespace Execution

variable {table : Table σ} {program : Expr} {s : σ}

/-- Whatever a program does, the last handler that it runs is the only one
that may fail. -/
theorem answered_of_recorded {scope : Scope} {sites : List Site} {new : List Dispatched}
    {outcome : Checked α} (hregular : ∀ d ∈ new, d.Regular table)
    (hcovers : Covers Dispatched.site Dispatched.outcome (Dispatched.Blames scope) sites new outcome) :
    ∀ h ∈ (new.flatMap Dispatched.handled).dropLast, ∃ v, h.result = .ok v := by
  have hdone : ∀ done : List Dispatched, (∀ d ∈ done, d.Regular table) →
      (∀ d ∈ done, ∃ v, d.outcome = .ok v) →
      ∀ h ∈ done.flatMap Dispatched.handled, ∃ v, h.result = .ok v := by
    intro done hall hok h hh
    obtain ⟨d, hd, hrun⟩ := List.mem_flatMap.1 hh
    obtain ⟨v, hv⟩ := hok d hd
    exact (hall d hd).serving.answered.2 v hv h hrun
  cases outcome with
  | ok a => exact fun h hh => hdone new hregular hcovers.2 h (List.dropLast_subset _ hh)
  | error e =>
    obtain ⟨done, last, rest, rfl, -, hok, -⟩ := hcovers
    have hfirst := hdone done (fun d hd => hregular d (by simp [hd])) hok
    have hlast := (hregular last (by simp)).serving.answered.1
    rw [List.flatMap_append, List.flatMap_singleton]
    intro h hh
    cases hruns : last.handled with
    | nil =>
      rw [hruns, List.append_nil] at hh
      exact hfirst h (List.dropLast_subset _ hh)
    | cons r rs =>
      rw [List.dropLast_append_of_ne_nil (by simp [hruns])] at hh
      exact (List.mem_append.1 hh).elim (hfirst h) (hlast h)

/-- The handlers that a program runs are those of its trace, and the last one
of them is the only one that may fail. The trace goes through the sites of the
program in order, each record being of one dispatch of the call there; there
is a record for each site if the program comes to a value. If it fails, the
last record is the only one that failed, and the sites behind it have none.
Keeping the log or the trace changes nothing about what the program comes to. -/
theorem execute_in_order (table : Table σ) (program : Expr) (s : σ) :
    (execute table.answering program).run (s, [])
        = (((execute table program).run s).1, ((execute table program).run s).2,
          (trace table program s).flatMap Dispatched.handled)
      ∧ (evaluateVia (dispatchRecorded table) [] program).run (s, [])
        = (((execute table program).run s).1, ((execute table program).run s).2,
          trace table program s)
      ∧ ((program.sites []).map Site.call).Perm program.calls
      ∧ (trace table program s).map Dispatched.site <+: program.sites []
      ∧ (∀ d ∈ trace table program s, d.Regular table)
      ∧ (∀ h ∈ ((trace table program s).flatMap Dispatched.handled).dropLast,
          ∃ v, h.result = .ok v)
      ∧ (∀ value, ((execute table program).run s).1 = .ok value →
          (trace table program s).map Dispatched.site = program.sites []
            ∧ ∀ d ∈ trace table program s, ∃ v, d.outcome = .ok v)
      ∧ ∀ e, ((execute table program).run s).1 = .error e →
          ∃ done last failure, trace table program s = done ++ [last]
            ∧ (∀ d ∈ done, ∃ v, d.outcome = .ok v) ∧ last.outcome = .error failure := by
  obtain ⟨hanswers, hrecords, hregular, hcovers⟩ := execute_recorded table program s
  refine ⟨by rw [hanswers, List.nil_append], by rw [hrecords, List.nil_append],
    program.sites_perm_calls [], hcovers.isPrefix, hregular, answered_of_recorded hregular hcovers,
    ?_, ?_⟩
  · intro value hvalue
    rw [hvalue] at hcovers
    exact hcovers
  · intro e he
    rw [he] at hcovers
    obtain ⟨done, last, rest, htrace, -, hdone, failure, hfailure, -⟩ := hcovers
    exact ⟨done, last, failure, htrace, hdone, hfailure⟩

end Execution

end UiScript
