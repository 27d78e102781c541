/-
Watching handlers at work. A watched table keeps, beside the state of the
host, a log with an entry for each handler that is run. Handlers do not see
the log, so a program does under a watched table what it does under the
table itself (`Tracks`), and the log tells what has been run on the way.

# Main statements

* `operation?_watched`, `modifier?_watched`, `names_watched`: a watched
  table offers the same names, in the same roles.
* `TracksFrom.bind`: the log of one action after the other.
* `dispatch_tracks`: a dispatch runs only what is registered in the role in
  which it is asked for.
-/
import UiScript.Proofs.Execution.Actions
import UiScript.Proofs.Program.Walks

namespace UiScript

/-- A handler at work: the name it is registered under, the element that it is
applied to, if it is a modifier, and what it is given. -/
structure Handled where
  name : String
  receiver : Option Element
  invocation : Invocation

variable {σ α β : Type}

/-- The action, with an entry in the log before it. -/
def Action.watched (action : Action σ α) (h : Handled) : Action (σ × List Handled) α :=
  fun p => ((action.run p.1).1, (action.run p.1).2, p.2 ++ [h])

def watchedOperation (name : String) (run : Operation σ) : Operation (σ × List Handled) :=
  fun inv => (run inv).watched ⟨name, none, inv⟩

def watchedModifier (name : String) (run : Modifier σ) : Modifier (σ × List Handled) :=
  fun e inv => (run e inv).watched ⟨name, some e, inv⟩

/-- The table whose handlers are logged when they are run. -/
def Table.watched (table : Table σ) : Table (σ × List Handled) where
  operations := table.operations.map fun o => (o.1, watchedOperation o.1 o.2)
  modifiers := table.modifiers.map fun m => (m.1, watchedModifier m.1 m.2)

-- ==================================================================== names

namespace Table

/-- Handlers are found under the same names when they are changed. -/
theorem find?_map (name : String) (f : String → α → β) (handlers : List (String × α)) :
    find? name (handlers.map fun h => (h.1, f h.1 h.2)) = (find? name handlers).map (f name) := by
  induction handlers with
  | nil => rfl
  | cons h handlers ih =>
    unfold find? at ih ⊢
    rw [List.map_cons, List.find?_cons, List.find?_cons]
    cases hname : h.1 == name with
    | true => simp [beq_iff_eq.1 hname]
    | false => exact ih

variable (table : Table σ)

/-- A watched operation is the operation, with an entry in the log. -/
theorem operation?_watched (name : String) :
    table.watched.operation? name = (table.operation? name).map (watchedOperation name) :=
  find?_map name watchedOperation table.operations

/-- A watched modifier is the modifier, with an entry in the log. -/
theorem modifier?_watched (name : String) :
    table.watched.modifier? name = (table.modifier? name).map (watchedModifier name) :=
  find?_map name watchedModifier table.modifiers

@[simp] theorem hasOperation_watched (name : String) :
    table.watched.hasOperation name = table.hasOperation name := by
  rw [hasOperation, operation?_watched, Option.isSome_map]
  rfl

@[simp] theorem hasModifier_watched (name : String) :
    table.watched.hasModifier name = table.hasModifier name := by
  rw [hasModifier, modifier?_watched, Option.isSome_map]
  rfl

/-- The names of a watched table are those of the table, so a policy made of
the one is a policy made of the other. -/
theorem names_watched : table.watched.names = table.names := by
  simp only [names, watched, List.map_map]
  rfl

end Table

-- =================================================================== logging

/-- From a state, the watched action ends like the plain one, in the same
state, and adds to the log only what `P` holds of. -/
def TracksFrom (P : Handled → Prop) (s : σ) (plain : Action σ α)
    (watched : Action (σ × List Handled) α) : Prop :=
  ∀ log, ∃ new, watched.run (s, log) = ((plain.run s).1, (plain.run s).2, log ++ new)
    ∧ ∀ h ∈ new, P h

/-- From every state, the watched action ends like the plain one, and adds to
the log only what `P` holds of. -/
def Tracks (P : Handled → Prop) (plain : Action σ α) (watched : Action (σ × List Handled) α) :
    Prop :=
  ∀ s, TracksFrom P s plain watched

namespace TracksFrom

open Execution

variable {P Q : Handled → Prop} {s : σ} {x : Action σ α} {y : Action (σ × List Handled) α}

/-- A log of which more is known is one of which less is known. -/
theorem mono (h : TracksFrom P s x y) (himp : ∀ a, P a → Q a) : TracksFrom Q s x y := by
  intro log
  obtain ⟨new, hrun, hnew⟩ := h log
  exact ⟨new, hrun, fun a ha => himp a (hnew a ha)⟩

theorem pure (a : α) : TracksFrom P s (pure a : Action σ α) (Pure.pure a) := by
  intro log
  exact ⟨[], by rw [run_pure, run_pure, List.append_nil], by simp⟩

theorem failWith (cause : ExecutionError.Cause) :
    TracksFrom P s (failWith cause : Action σ α) (Execution.failWith cause) := by
  intro log
  exact ⟨[], by rw [run_failWith, run_failWith, List.append_nil], by simp⟩

/-- What is logged by a handler is its entry. -/
theorem watched {h : Handled} (hp : P h) : TracksFrom P s x (x.watched h) := by
  intro log
  exact ⟨[h], rfl, by simpa using hp⟩

/-- The log of one action after the other holds the entries of both, the
second one from where the first one ends, or those of the first one if that
fails. -/
theorem bind {f : α → Action σ β} {g : α → Action (σ × List Handled) β}
    (h : TracksFrom P s x y)
    (hf : ∀ a t, x.run s = (.ok a, t) → TracksFrom P t (f a) (g a)) :
    TracksFrom P s (x >>= f) (y >>= g) := by
  intro log
  obtain ⟨new, hrun, hnew⟩ := h log
  rw [run_bind, run_bind, hrun]
  rcases hx : x.run s with ⟨e | a, t⟩
  · exact ⟨new, rfl, hnew⟩
  · obtain ⟨more, hrest, hmore⟩ := hf a t hx (log ++ new)
    refine ⟨new ++ more, ?_, ?_⟩
    · rw [List.append_assoc] at hrest
      exact hrest
    · intro b hb
      exact (List.mem_append.1 hb).elim (hnew b) (hmore b)

theorem map (f : α → β) (h : TracksFrom P s x y) : TracksFrom P s (f <$> x) (f <$> y) := by
  intro log
  obtain ⟨new, hrun, hnew⟩ := h log
  refine ⟨new, ?_, hnew⟩
  rw [run_map, run_map, hrun]

theorem adaptFailure (f : ExecutionError → ExecutionError) (h : TracksFrom P s x y) :
    TracksFrom P s (adaptFailure f x) (Execution.adaptFailure f y) := by
  intro log
  obtain ⟨new, hrun, hnew⟩ := h log
  refine ⟨new, ?_, hnew⟩
  rw [run_adaptFailure, run_adaptFailure, hrun]

end TracksFrom

-- ================================================================== dispatch

/-- What a handler at work has to do with a call of a program: it has the
call's name, and is registered as an operation if the call has no receiver,
and as a modifier if it has one. -/
structure Table.Serves (table : Table σ) (c : Call) (h : Handled) : Prop where
  name : h.name = c.method
  method : h.invocation.method = c.method
  span : h.invocation.span = c.span
  operation : c.receiver = none → h.receiver = none ∧ table.hasOperation h.name = true
  modifier : c.receiver.isSome → h.receiver.isSome ∧ table.hasModifier h.name = true

/-- A handler at work serves a call somewhere in an expression. -/
def Table.ServesIn (table : Table σ) (e : Expr) (h : Handled) : Prop :=
  ∃ c ∈ e.calls, table.Serves c h

namespace Execution

variable (table : Table σ)

/-- The message for a name that is no modifier asks the table for its names
only. -/
theorem notAModifier_watched (name : String) (receiver : Value) :
    notAModifier table.watched name receiver = notAModifier table name receiver := by
  simp [notAModifier]

/-- A modifier is run on one element after the other. -/
theorem applyEach_tracks {P : Handled → Prop} {modifier : Modifier σ} {inv : Invocation}
    {name : String} (es : List Element) (h : ∀ e ∈ es, P ⟨name, some e, inv⟩) :
    Tracks P (applyEach modifier inv es) (applyEach (watchedModifier name modifier) inv es) := by
  induction es with
  | nil => exact fun s => TracksFrom.pure []
  | cons e es ih =>
    obtain ⟨hthis, hrest⟩ := List.forall_mem_cons.1 h
    intro s
    refine TracksFrom.bind (.watched hthis) fun value t _ => ?_
    exact TracksFrom.bind (ih hrest t) fun rest u _ => TracksFrom.pure _

/-- A dispatch runs only what is registered in the role in which it is asked
for, on the element that is the receiver or on the elements of the fragment
that is the receiver. -/
theorem dispatch_tracks {P : Handled → Prop} (receiver : Option Value) (inv : Invocation)
    (hoperation : receiver = none → table.hasOperation inv.method = true
      → P ⟨inv.method, none, inv⟩)
    (hmodifier : ∀ value, receiver = some value → table.hasModifier inv.method = true →
      ∀ e ∈ value.elements, P ⟨inv.method, some e, inv⟩) :
    Tracks P (dispatch table receiver inv) (dispatch table.watched receiver inv) := by
  intro s
  cases receiver with
  | none =>
    have hwatched := table.operation?_watched inv.method
    cases hop : table.operation? inv.method with
    | some operation =>
      rw [hop] at hwatched
      rw [dispatch_operation hop, dispatch_operation hwatched]
      exact TracksFrom.watched (hoperation rfl (by rw [Table.hasOperation, hop]; rfl))
    | none =>
      rw [hop] at hwatched
      rw [dispatch_no_operation hop, dispatch_no_operation hwatched, table.hasModifier_watched]
      exact TracksFrom.failWith _
  | some value =>
    have hwatched := table.modifier?_watched inv.method
    cases hmod : table.modifier? inv.method with
    | none =>
      rw [hmod] at hwatched
      rw [dispatch_no_modifier hmod, dispatch_no_modifier hwatched, notAModifier_watched]
      exact TracksFrom.failWith _
    | some modifier =>
      rw [hmod] at hwatched
      have hP := hmodifier value rfl (by rw [Table.hasModifier, hmod]; rfl)
      cases value with
      | element e =>
        rw [dispatch_element hmod, dispatch_element hwatched]
        exact TracksFrom.watched (hP e (by simp [Value.elements]))
      | fragment es =>
        rw [dispatch_fragment hmod, dispatch_fragment hwatched]
        exact TracksFrom.map _ (applyEach_tracks es hP s)
      -- a scalar has no modifiers, though the name may be one
      | _ =>
        rw [dispatch_scalar rfl, dispatch_scalar rfl, notAModifier_watched]
        exact TracksFrom.failWith _

end Execution

end UiScript
