/-
Capability tables: all that a program can reach. A table maps names to
operations, which make values, and to modifiers, which make a value of an
element. Handlers pass a state of the host along; a handler that fails
keeps the state that it has reached.

# Main statements

* `mem_names` — the names of a table are those of its operations and its
  modifiers.
-/
import UiScript.Execution.Invocation
import UiScript.Text.Shape

namespace UiScript

/-- What a handler does: it goes on from one state of the host to another, and
answers or fails. -/
abbrev Action (σ α : Type) := ExceptT ExecutionError (StateM σ) α

/-- The action that leaves the state alone. -/
def Action.ofChecked {σ α : Type} (result : Checked α) : Action σ α := ExceptT.mk (pure result)

/-- The handler of a call without a receiver. -/
abbrev Operation (σ : Type) := Invocation → Action σ Value

/-- The handler of a call on an element. -/
abbrev Modifier (σ : Type) := Element → Invocation → Action σ Value

/-- What a program can reach. -/
structure Table (σ : Type) where
  operations : List (String × Operation σ)
  modifiers : List (String × Modifier σ)

namespace Table

variable {σ : Type}

/-- The first handler with a name. -/
def find? {α : Type} (name : String) (handlers : List (String × α)) : Option α :=
  (handlers.find? fun h => h.1 == name).map Prod.snd

/-- What is found is one of the handlers. -/
theorem mem_of_find? {α : Type} {name : String} {handlers : List (String × α)} {handler : α}
    (h : find? name handlers = some handler) : (name, handler) ∈ handlers := by
  unfold find? at h
  obtain ⟨⟨key, found⟩, hfound, rfl⟩ := Option.map_eq_some_iff.1 h
  have hname : (key == name) = true :=
    List.find?_some (p := fun h : String × α => h.1 == name) hfound
  rw [← beq_iff_eq.1 hname]
  exact List.mem_of_find?_eq_some hfound

/-- The operation with a name. -/
def operation? (table : Table σ) (name : String) : Option (Operation σ) := find? name table.operations

/-- The modifier with a name. -/
def modifier? (table : Table σ) (name : String) : Option (Modifier σ) := find? name table.modifiers

/-- Whether there is an operation with a name. -/
def hasOperation (table : Table σ) (name : String) : Bool := (table.operation? name).isSome

/-- Whether there is a modifier with a name. -/
def hasModifier (table : Table σ) (name : String) : Bool := (table.modifier? name).isSome

/-- Names in ascending order, each of them once. -/
def sorted (names : List String) : List String :=
  (names.mergeSort fun a b => decide (a ≤ b)).eraseReps

/-- The names of the operations, in ascending order. -/
def operationNames (table : Table σ) : List String := sorted (table.operations.map Prod.fst)

/-- The names of the modifiers, in ascending order. -/
def modifierNames (table : Table σ) : List String := sorted (table.modifiers.map Prod.fst)

/-- Every name, in ascending order. -/
def names (table : Table σ) : List String :=
  sorted (table.operations.map Prod.fst ++ table.modifiers.map Prod.fst)

/-- A table as debugging output shows it. -/
def shape (table : Table σ) : Text.Shape :=
  .record "CapabilityTable" [
    ("operations", .list (table.operationNames.map Text.Shape.string)),
    ("modifiers", .list (table.modifierNames.map Text.Shape.string))]

-- ==================================================================== laws

theorem operation?_eq_none_iff {table : Table σ} {name : String} :
    table.operation? name = none ↔ table.hasOperation name = false := by
  unfold hasOperation
  cases table.operation? name <;> simp

theorem modifier?_eq_none_iff {table : Table σ} {name : String} :
    table.modifier? name = none ↔ table.hasModifier name = false := by
  unfold hasModifier
  cases table.modifier? name <;> simp

/-- A handler is found under a name exactly if there is one with that name. -/
theorem isSome_find?_iff {α : Type} {name : String} {handlers : List (String × α)} :
    (find? name handlers).isSome = true ↔ name ∈ handlers.map Prod.fst := by
  unfold find?
  rw [Option.isSome_map, List.find?_isSome, List.mem_map]
  constructor
  · intro h
    obtain ⟨entry, hentry, hname⟩ := h
    exact ⟨entry, hentry, beq_iff_eq.1 hname⟩
  · intro h
    obtain ⟨entry, hentry, hname⟩ := h
    exact ⟨entry, hentry, beq_iff_eq.2 hname⟩

/-- Dropping repetitions drops no name: `last` and `before` are the names that
are kept so far. -/
theorem mem_eraseReps_loop {name last : String} {before names : List String} :
    name ∈ List.eraseRepsBy.loop (· == ·) last names before
      ↔ name ∈ before ∨ name = last ∨ name ∈ names := by
  induction names generalizing last before with
  | nil => simp [List.eraseRepsBy.loop, or_comm]
  | cons next names ih =>
    rw [List.eraseRepsBy.loop]
    by_cases hsame : (last == next) = true
    · rw [hsame]
      obtain rfl : last = next := beq_iff_eq.1 hsame
      simp [ih]
    · rw [Bool.eq_false_iff.2 hsame]
      simp only [ih, List.mem_cons]
      grind

theorem mem_sorted_iff {name : String} {names : List String} :
    name ∈ sorted names ↔ name ∈ names := by
  have hsort : name ∈ names.mergeSort (fun a b => decide (a ≤ b)) ↔ name ∈ names :=
    List.mem_mergeSort
  unfold sorted List.eraseReps
  rw [← hsort]
  cases names.mergeSort fun a b => decide (a ≤ b) with
  | nil => rfl
  | cons first rest =>
    show name ∈ List.eraseRepsBy.loop (· == ·) first rest [] ↔ _
    rw [mem_eraseReps_loop]
    simp

/-- The names of a table are those of its operations and its modifiers. A
policy that lists the names of a table therefore lets through what the table
can serve in one role or the other. -/
theorem mem_names {table : Table σ} {name : String} :
    name ∈ table.names ↔ (table.hasOperation name || table.hasModifier name) = true := by
  unfold names hasOperation hasModifier operation? modifier?
  rw [mem_sorted_iff, List.mem_append, Bool.or_eq_true, isSome_find?_iff, isSome_find?_iff]

end Table

end UiScript
