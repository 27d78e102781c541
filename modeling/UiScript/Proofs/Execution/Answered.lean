/-
What handlers answer. An answering table keeps, beside the state of the
host, a log with what each handler that is run was given and what it
answered. Handlers do not see the log. A dispatch that finds a handler runs
it once, or once for each element of a fragment, as long as none of the runs
fails; a dispatch that finds none runs nothing.

# Main statements

* `Covers.append`, `Covers.stop`: work on some places and then on others, as
  far as the first failure.
* `applyEach_answering`: a modifier on one element after the other.
* `dispatch_answering`: the runs that a dispatch is made of.
-/
import UiScript.Proofs.Execution.Fails
import UiScript.Proofs.Execution.Watched

namespace UiScript

variable {σ α β γ ε ρ π : Type}

-- ================================================================== covering

/-- Records of work that takes `places` one after the other until something
fails. If the whole is a success, each place has its record, and none of them
failed; otherwise the last record is the only one that failed, with a failure
that `blames` links to that of the whole. -/
def Covers (place : ρ → π) (result : ρ → Except ε β) (blames : ρ → ε → Prop) (places : List π)
    (records : List ρ) : Except ε α → Prop
  | .ok _ => records.map place = places ∧ ∀ r ∈ records, ∃ b, result r = .ok b
  | .error e => ∃ done last rest, records = done ++ [last]
      ∧ places = done.map place ++ place last :: rest
      ∧ (∀ r ∈ done, ∃ b, result r = .ok b) ∧ blames last e

namespace Covers

variable {place : ρ → π} {result : ρ → Except ε β} {blames : ρ → ε → Prop}
  {places more : List π} {records new : List ρ}

/-- A modifier on no elements is not run at all. -/
theorem nil (a : α) : Covers place result blames [] [] (.ok a : Except ε α) := ⟨rfl, by simp⟩

/-- Work on one place has one record, which failed if the whole did. -/
theorem one {r : ρ} {outcome : Except ε α} (hok : ∀ a, outcome = .ok a → ∃ b, result r = .ok b)
    (herror : ∀ e, outcome = .error e → blames r e) :
    Covers place result blames [place r] [r] outcome := by
  cases outcome with
  | ok a => exact ⟨rfl, by simpa using hok a rfl⟩
  | error e => exact ⟨[], r, [], rfl, rfl, by simp, herror e rfl⟩

/-- What the success is does not matter, and a failure may be told in other
words. -/
theorem change {other : ρ → ε → Prop} {outcome : Except ε α} {changed : Except ε γ}
    (h : Covers place result blames places records outcome)
    (hok : ∀ a, outcome = .ok a → ∃ c, changed = .ok c)
    (herror : ∀ e, outcome = .error e →
      ∃ e', changed = .error e' ∧ ∀ r ∈ records, blames r e → other r e') :
    Covers place result other places records changed := by
  cases outcome with
  | ok a =>
    obtain ⟨c, rfl⟩ := hok a rfl
    exact h
  | error e =>
    obtain ⟨e', rfl, hother⟩ := herror e rfl
    obtain ⟨done, last, rest, rfl, hplaces, hdone, hlast⟩ := h
    exact ⟨done, last, rest, rfl, hplaces, hdone, hother last (by simp) hlast⟩

/-- After a success, the work goes on with the next places. -/
theorem append {a : α} {outcome : Except ε γ}
    (h : Covers place result blames places records (.ok a : Except ε α))
    (hmore : Covers place result blames more new outcome) :
    Covers place result blames (places ++ more) (records ++ new) outcome := by
  obtain ⟨rfl, hrecords⟩ := h
  cases outcome with
  | ok c =>
    obtain ⟨rfl, hnew⟩ := hmore
    refine ⟨List.map_append, fun r hr => ?_⟩
    exact (List.mem_append.1 hr).elim (hrecords r) (hnew r)
  | error e =>
    obtain ⟨done, last, rest, rfl, rfl, hdone, hlast⟩ := hmore
    refine ⟨records ++ done, last, rest, (List.append_assoc ..).symm, ?_, fun r hr => ?_, hlast⟩
    · rw [List.map_append, List.append_assoc]
    · exact (List.mem_append.1 hr).elim (hrecords r) (hdone r)

/-- After a failure there is no more work. -/
theorem stop {e : ε} (h : Covers place result blames places records (.error e : Except ε α)) :
    Covers place result blames (places ++ more) records (.error e : Except ε γ) := by
  obtain ⟨done, last, rest, hrecords, rfl, hdone, hlast⟩ := h
  refine ⟨done, last, rest ++ more, hrecords, ?_, hdone, hlast⟩
  rw [List.append_assoc, List.cons_append]

/-- The records are about the first places, in order. -/
theorem isPrefix {outcome : Except ε α} (h : Covers place result blames places records outcome) :
    records.map place <+: places := by
  cases outcome with
  | ok a =>
    obtain ⟨rfl, -⟩ := h
    exact List.prefix_refl _
  | error e =>
    obtain ⟨done, last, rest, rfl, rfl, -, -⟩ := h
    refine ⟨rest, ?_⟩
    rw [List.map_append, List.append_assoc]
    rfl

end Covers

-- ================================================================= answering

/-- A handler that was run, and what it answered. -/
structure Answered extends Handled where
  result : Checked Value

/-- The action, with an entry in the log after it that says what came of it. -/
def Action.answering (action : Action σ Value) (h : Handled) : Action (σ × List Answered) Value :=
  fun p => ((action.run p.1).1, (action.run p.1).2, p.2 ++ [⟨h, (action.run p.1).1⟩])

def answeringOperation (name : String) (run : Operation σ) : Operation (σ × List Answered) :=
  fun inv => (run inv).answering ⟨name, none, inv⟩

def answeringModifier (name : String) (run : Modifier σ) : Modifier (σ × List Answered) :=
  fun e inv => (run e inv).answering ⟨name, some e, inv⟩

namespace Table

variable (table : Table σ)

/-- The table whose handlers are logged with what they answer. -/
def answering : Table (σ × List Answered) where
  operations := table.operations.map fun o => (o.1, answeringOperation o.1 o.2)
  modifiers := table.modifiers.map fun m => (m.1, answeringModifier m.1 m.2)

theorem operation?_answering (name : String) :
    table.answering.operation? name = (table.operation? name).map (answeringOperation name) :=
  find?_map name answeringOperation table.operations

theorem modifier?_answering (name : String) :
    table.answering.modifier? name = (table.modifier? name).map (answeringModifier name) :=
  find?_map name answeringModifier table.modifiers

@[simp] theorem hasOperation_answering (name : String) :
    table.answering.hasOperation name = table.hasOperation name := by
  rw [hasOperation, operation?_answering, Option.isSome_map]
  rfl

@[simp] theorem hasModifier_answering (name : String) :
    table.answering.hasModifier name = table.hasModifier name := by
  rw [hasModifier, modifier?_answering, Option.isSome_map]
  rfl

/-- A call is handled by an answering table if it is by the table. -/
@[simp] theorem handles_answering (name : String) (receiver : Option Value) :
    table.answering.handles name receiver = table.handles name receiver := by
  cases receiver <;> simp [handles]

end Table

-- ======================================================================= runs

/-- The runs of a handler on `targets`: each is given the same invocation,
each of the targets has its turn until a run fails, and `gathers` says how the
outcome is made of the answers. -/
structure HandledOn (inv : Invocation) (targets : List (Option Element))
    (gathers : List Value → α → Prop) (runs : List Answered) (outcome : Checked α) : Prop where
  same : ∀ h ∈ runs, h.name = inv.method ∧ h.invocation = inv
  covers : Covers (fun h => h.receiver) Answered.result (fun h e => h.result = .error e) targets
    runs outcome
  gathers : ∀ a, outcome = .ok a →
    ∃ values, runs.map Answered.result = values.map .ok ∧ gathers values a

/-- What several answers contribute, strung together. -/
def Strung (values : List Value) (es : List Element) : Prop := es = values.flatMap Value.elements

/-- What the handler of a call is run on: on nothing if there is no receiver,
on an element, or on each element of a fragment. -/
def targets : Option Value → List (Option Element)
  | none => [none]
  | some value => value.elements.map some

/-- How the answer of a call is made of those of its handler: it is the only
one there is, or, on a fragment, all that they contribute strung together. -/
def Gathers : Option Value → List Value → Value → Prop
  | some (.fragment _), values, answer => ∃ es, Strung values es ∧ answer = .fragment es
  | _, values, answer => values = [answer]

/-- The runs that a call makes of its handler, if there is one; if there is
none, it fails without a run. -/
structure Table.Serving (table : Table σ) (receiver : Option Value) (inv : Invocation)
    (runs : List Answered) (outcome : Checked Value) : Prop where
  handled : table.handles inv.method receiver = true →
    HandledOn inv (targets receiver) (Gathers receiver) runs outcome
  unhandled : table.handles inv.method receiver = false → runs = [] ∧ ∃ e, outcome = .error e

namespace HandledOn

variable {inv : Invocation} {target : Option Element} {targets : List (Option Element)}
  {runs : List Answered}

theorem one {gathers : List Value → Value → Prop} (hgathers : ∀ v, gathers [v] v)
    (outcome : Checked Value) :
    HandledOn inv [target] gathers [⟨⟨inv.method, target, inv⟩, outcome⟩] outcome where
  same := by simp
  covers := .one (fun a ha => ⟨a, ha⟩) fun e he => he
  gathers := by
    rintro a rfl
    exact ⟨[a], rfl, hgathers a⟩

theorem nil : HandledOn inv [] Strung [] (.ok []) where
  same := by simp
  covers := .nil _
  gathers := by
    rintro a ⟨⟩
    exact ⟨[], rfl, rfl⟩

/-- After an answer, the next targets have their turn. -/
theorem cons {outcome : Checked (List Element)} (value : Value)
    (h : HandledOn inv targets Strung runs outcome) :
    HandledOn inv (target :: targets) Strung (⟨⟨inv.method, target, inv⟩, .ok value⟩ :: runs)
      (outcome.map (value.elements ++ ·)) where
  same := List.forall_mem_cons.2 ⟨⟨rfl, rfl⟩, h.same⟩
  covers := by
    have hfirst : Covers (fun h => h.receiver) Answered.result (fun h e => h.result = .error e)
        [target] [⟨⟨inv.method, target, inv⟩, .ok value⟩] (.ok value : Checked Value) :=
      ⟨rfl, by simp⟩
    refine (hfirst.append h.covers).change (fun a ha => ?_) fun e he => ?_
    · exact ⟨_, by rw [ha]; rfl⟩
    · exact ⟨e, by rw [he]; rfl, fun _ _ hr => hr⟩
  gathers := by
    intro es hes
    cases outcome with
    | error e => cases hes
    | ok rest =>
      cases hes
      obtain ⟨values, hvalues, rfl⟩ := h.gathers rest rfl
      exact ⟨value :: values, by rw [List.map_cons, hvalues]; rfl, rfl⟩

/-- After a failure, no target has its turn. -/
theorem fail (e : ExecutionError) :
    HandledOn inv (target :: targets) Strung [⟨⟨inv.method, target, inv⟩, .error e⟩] (.error e) where
  same := by simp
  covers := ⟨[], _, targets, rfl, rfl, by simp, rfl⟩
  gathers := by
    rintro a ⟨⟩

/-- The runs on the elements of a fragment are those of the call on the
fragment. -/
theorem fragment {es : List Element} {outcome : Checked (List Element)}
    (h : HandledOn inv (es.map some) Strung runs outcome) :
    HandledOn inv (UiScript.targets (some (.fragment es))) (Gathers (some (.fragment es))) runs
      (outcome.map .fragment) where
  same := h.same
  covers := h.covers.change (fun a ha => ⟨.fragment a, by rw [ha]; rfl⟩)
    fun e he => ⟨e, by rw [he]; rfl, fun _ _ hr => hr⟩
  gathers := by
    intro answer hanswer
    cases outcome with
    | error e => cases hanswer
    | ok out =>
      cases hanswer
      obtain ⟨values, hvalues, hstrung⟩ := h.gathers out rfl
      exact ⟨values, hvalues, out, hstrung, rfl⟩

end HandledOn

-- ================================================================== dispatch

namespace Execution

variable {table : Table σ} {inv : Invocation}

/-- A modifier is run on the first element, and on the others from the state
that it leaves, unless it fails. -/
theorem run_applyEach_cons (modifier : Modifier σ) (inv : Invocation) (e : Element)
    (es : List Element) (s : σ) :
    (applyEach modifier inv (e :: es)).run s =
      match (modifier e inv).run s with
      | (.ok value, t) => (((applyEach modifier inv es).run t).1.map (value.elements ++ ·),
          ((applyEach modifier inv es).run t).2)
      | (.error failure, t) => (.error failure, t) := by
  rw [applyEach, run_bind]
  rcases (modifier e inv).run s with ⟨failure | value, t⟩
  · rfl
  · exact run_map ..

/-- A modifier is run on one element after the other, until a run fails. The
induction is on the elements; a run that fails leaves the others without their
turn. -/
theorem applyEach_answering (modifier : Modifier σ) (es : List Element) (s : σ) :
    ∃ runs : List Answered,
      (∀ log, (applyEach (answeringModifier inv.method modifier) inv es).run (s, log)
        = (((applyEach modifier inv es).run s).1, ((applyEach modifier inv es).run s).2,
          log ++ runs))
      ∧ HandledOn inv (es.map some) Strung runs ((applyEach modifier inv es).run s).1 := by
  induction es generalizing s with
  | nil => exact ⟨[], fun log => by simp [applyEach, run_pure], .nil⟩
  | cons e es ih =>
    -- the first run is logged whatever it answers
    have hfirst : ∀ log, (answeringModifier inv.method modifier e inv).run (s, log)
        = (((modifier e inv).run s).1, ((modifier e inv).run s).2,
          log ++ [⟨⟨inv.method, some e, inv⟩, ((modifier e inv).run s).1⟩]) := fun log => rfl
    simp only [run_applyEach_cons, hfirst]
    rcases (modifier e inv).run s with ⟨failure | value, t⟩
    · exact ⟨_, fun log => rfl, .fail failure⟩
    · obtain ⟨runs, hlog, hruns⟩ := ih t
      refine ⟨_, fun log => ?_, hruns.cons value⟩
      simp only [hlog, List.append_assoc, List.singleton_append]

/-- The runs that a dispatch is made of; the log of the answering table has
them. Without a handler there is no run, and the log stays as it is. -/
theorem dispatch_answering (table : Table σ) (receiver : Option Value) (inv : Invocation) (s : σ) :
    ∃ runs : List Answered,
      (∀ log, (dispatch table.answering receiver inv).run (s, log)
        = (((dispatch table receiver inv).run s).1, ((dispatch table receiver inv).run s).2,
          log ++ runs))
      ∧ table.Serving receiver inv runs ((dispatch table receiver inv).run s).1 := by
  by_cases hhandled : table.handles inv.method receiver = true
  -- there is a handler, so only its runs have to be told
  · have hserving : ∀ {runs : List Answered} {outcome : Checked Value},
        HandledOn inv (targets receiver) (Gathers receiver) runs outcome →
        table.Serving receiver inv runs outcome := fun h =>
      ⟨fun _ => h, fun hunhandled => by rw [hhandled] at hunhandled; cases hunhandled⟩
    cases receiver with
    | none =>
      obtain ⟨operation, hoperation⟩ := Table.exists_operation_of_handles hhandled
      have hanswering := table.operation?_answering inv.method
      rw [hoperation] at hanswering
      rw [dispatch_operation hoperation, dispatch_operation hanswering]
      exact ⟨_, fun log => rfl, hserving (.one (fun v => rfl) _)⟩
    | some value =>
      obtain ⟨hrenderable, modifier, hmodifier⟩ := Table.exists_modifier_of_handles hhandled
      have hanswering := table.modifier?_answering inv.method
      rw [hmodifier] at hanswering
      cases value with
      | element e =>
        rw [dispatch_element hmodifier, dispatch_element hanswering]
        exact ⟨_, fun log => rfl, hserving (.one (fun v => rfl) _)⟩
      | fragment es =>
        rw [dispatch_fragment hmodifier, dispatch_fragment hanswering]
        obtain ⟨runs, hlog, hruns⟩ := applyEach_answering modifier es s
        refine ⟨runs, fun log => ?_, ?_⟩
        · rw [run_map, run_map, hlog]
        · rw [run_map]
          exact hserving hruns.fragment
      | _ => cases hrenderable
  -- there is none, and both tables fail with the same cause
  · have hunhandled := Bool.eq_false_iff.2 hhandled
    rw [dispatch_unhandled hunhandled,
      dispatch_unhandled ((table.handles_answering inv.method receiver).trans hunhandled),
      table.hasOperation_answering, table.hasModifier_answering]
    refine ⟨[], fun log => by rw [run_failWith, run_failWith, List.append_nil], ?_⟩
    exact ⟨fun h => absurd h hhandled, fun _ => ⟨rfl, _, rfl⟩⟩

end Execution

end UiScript
