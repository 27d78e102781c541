/-
Which call a failed run blames. A run fails because one dispatch fails, the
last one that is made; the failure is located at the call of that dispatch,
inside the calls in whose blocks it lies, from the outside in. A block of the
call itself is not among them.

Handlers do not locate their failures themselves; if they do, it is what they
say that stays.

# Main statements

* `Site.locate_of`: a failure of the call of a site, by its parts.
* `execute_blames`: the call that a failed run blames.
-/
import UiScript.Proofs.Execution.Trace
import UiScript.Proofs.Standard.Contributions

namespace UiScript

variable {σ : Type} {table : Table σ}

-- ================================================================== failures

/-- A failure that does not say where it is. -/
def ExecutionError.Unplaced (e : ExecutionError) : Prop := e.span = none ∧ e.scope = none

theorem ExecutionError.Unplaced.eq_of {e : ExecutionError} (h : e.Unplaced) : e = .of e.cause := by
  obtain ⟨cause, span, scope⟩ := e
  obtain ⟨rfl, rfl⟩ := h
  rfl

/-- No handler of the standard table says where it fails. -/
theorem Standard.table_failsWith_unplaced : Standard.table.FailsWith ExecutionError.Unplaced :=
  table_failsWith_plain.mono fun _ he => ⟨he.span, he.scope⟩

/-- A failure of the call of a site is located at the call, and inside the
blocks around it if there are any. -/
theorem Site.locate_of (site : Site) (cause : ExecutionError.Cause) :
    site.locate (.of cause) = ⟨cause, some site.call.span,
      if site.owners = [] then none
      else some (" > ".intercalate (site.owners.map Call.method))⟩ := by
  unfold Site.locate Scope.tell
  rw [Scope.isRoot_ofOwners, Scope.path_ofOwners]
  cases site.owners with
  | nil => rfl
  | cons o owners => rfl

namespace Execution

/-- A dispatch does not say where it fails, if no handler does. -/
theorem dispatch_unplaced (hhandlers : table.FailsWith ExecutionError.Unplaced)
    (receiver : Option Value) (inv : Invocation) :
    (dispatch table receiver inv).Fails ExecutionError.Unplaced := by
  refine dispatch_fails hhandlers fun hunhandled => ?_
  rw [dispatch_unhandled hunhandled]
  exact .failWith ⟨rfl, rfl⟩

-- ===================================================================== blame

/-- The dispatch of a run that fails: it is the only one of the trace that
failed, and the failure of the run is its failure, told where its call stands. -/
structure Blamed (table : Table σ) (program : Expr) (s : σ) (e : ExecutionError) (i : Nat)
    (d : Dispatched) : Prop where
  record : (trace table program s)[i]? = some d
  site : (program.sites [])[i]? = some d.site
  only : ∀ j d', (trace table program s)[j]? = some d' → ((∃ v, d'.outcome = .ok v) ↔ j ≠ i)
  outcome : d.outcome = .error (.of e.cause)
  span : e.span = some d.site.call.span
  scope : e.scope = if d.site.owners = [] then none
    else some (" > ".intercalate (d.site.owners.map Call.method))

/-- A run that fails blames one call of the program: the one whose dispatch
failed, inside the calls whose blocks are around it. These are calls of the
program, each in the block of the one before it, and the call that is blamed
is not one of them. -/
theorem execute_blames (hhandlers : table.FailsWith ExecutionError.Unplaced) {program : Expr} {s : σ}
    {e : ExecutionError} (h : ((execute table program).run s).1 = .error e) :
    ∃ i d, Blamed table program s e i d ∧ d.site.Lies program [] d.site.owners
      ∧ d.site.call ∉ d.site.owners := by
  obtain ⟨-, -, hregular, hcovers⟩ := execute_recorded table program s
  rw [h] at hcovers
  obtain ⟨done, d, rest, htrace, hsites, hdone, failure, hfailure, htold⟩ := hcovers
  have hlength : (done.map Dispatched.site).length = done.length := List.length_map ..
  have hsite : (program.sites [])[done.length]? = some d.site := by
    rw [hsites, ← hlength, List.getElem?_append_right (Nat.le_refl _), Nat.sub_self]
    rfl
  -- the dispatch fails with a failure that is not located yet
  obtain ⟨t, ht⟩ := (hregular d (by simp [htrace])).outcome
  have hcause := (dispatch_unplaced hhandlers d.receiver d.invocation t failure
    (ht.trans hfailure)).eq_of
  have hlocated : e = d.site.locate (.of failure.cause) := by
    rw [← hcause]
    exact htold
  rw [Site.locate_of] at hlocated
  obtain ⟨inner, hlies⟩ := Expr.mem_sites (List.mem_of_getElem? hsite)
  obtain rfl : d.site.owners = inner := hlies.owners
  refine ⟨done.length, d, ⟨?_, hsite, ?_, ?_, ?_, ?_⟩, hlies, hlies.not_mem_owners⟩
  · rw [htrace, List.getElem?_concat_length]
  · intro j d' hd'
    rw [htrace] at hd'
    rcases Nat.lt_trichotomy j done.length with hless | rfl | hmore
    · rw [List.getElem?_append_left hless] at hd'
      exact ⟨fun _ => Nat.ne_of_lt hless, fun _ => hdone d' (List.mem_of_getElem? hd')⟩
    · rw [List.getElem?_concat_length] at hd'
      obtain rfl := Option.some.inj hd'
      refine ⟨?_, fun hne => absurd rfl hne⟩
      rintro ⟨v, hv⟩
      rw [hfailure] at hv
      cases hv
    · rw [List.getElem?_eq_none (by rw [List.length_append]; exact hmore)] at hd'
      cases hd'
  · rw [hfailure, hcause, hlocated]
  · rw [hlocated]
  · rw [hlocated]

/-- A text with a block, in a card in a section. -/
def blockOfText : Expr :=
  .call ⟨none, "section", [],
    some ⟨[.call ⟨none, "card", [],
      some ⟨[.call ⟨some (.call ⟨none, "text", [.positional (.literal (.string "A") ⟨22, 25⟩)],
        some ⟨[], ⟨27, 30⟩⟩, ⟨17, 30⟩⟩), "bold", [], none, ⟨17, 35⟩⟩], ⟨15, 37⟩⟩, ⟨10, 37⟩⟩],
      ⟨8, 39⟩⟩, ⟨0, 39⟩⟩

/-- Texts take no block. It is the text that is blamed, and its own block is
not around it. -/
theorem execute_blames_blockOfText :
    ((execute Standard.table blockOfText).run ()).1
        = .error ⟨.blockNotAccepted "text", some ⟨17, 30⟩, some "section > card"⟩
      ∧ ∃ i d, Blamed Standard.table blockOfText ()
          ⟨.blockNotAccepted "text", some ⟨17, 30⟩, some "section > card"⟩ i d
        ∧ d.site.Lies blockOfText [] d.site.owners ∧ d.site.call ∉ d.site.owners :=
  ⟨rfl, execute_blames Standard.table_failsWith_unplaced rfl⟩

end Execution

end UiScript
