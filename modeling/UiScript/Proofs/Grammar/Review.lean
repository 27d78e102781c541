/-
What is looked at while a program is read. Reading puts the words of a
program to the policy one by one, each as it comes to it; the words say what
is looked at, and in which order, and the first word that is refused ends
the reading. Whether arguments are in order is no matter of the policy, and
is asked of the tree (`Orderly`).

# Main statements

* `orderly_call_iff`: a call is in order with its parts.
* `review_eq_ok_of_admits`: if the expression is admitted, its words are.
-/
import UiScript.Proofs.Grammar.Admission
import UiScript.Proofs.Grammar.Roles

namespace UiScript

-- ==================================================================== order

/-- Every argument list of an expression is in order. -/
def Orderly (e : Expr) : Prop := ∀ c ∈ e.calls, InOrder c.args

theorem orderly_call_iff {c : Call} :
    Orderly (.call c) ↔ (∀ r, c.receiver = some r → Orderly r) ∧ InOrder c.args
      ∧ (∀ a ∈ c.args, Orderly a.value)
      ∧ ∀ b, c.block = some b → ∀ e ∈ b.statements, Orderly e :=
  forall_calls_call_iff

/-- A program is in order with its statements. -/
theorem orderly_rootOf_iff {statements : List Expr} :
    Orderly (ParseRules.rootOf statements) ↔ ∀ e ∈ statements, Orderly e := by
  unfold Orderly
  simp only [mem_calls_rootOf]
  constructor
  · intro h e he c hc
    exact h c ⟨e, he, hc⟩
  · rintro h c ⟨e, he, hc⟩
    exact h e he c hc

theorem Role.called_mem_roles_iff {e : Expr} {name : String} :
    .called name ∈ e.roles ↔ name ∈ e.methodNames := by
  rw [← e.filterMap_called_roles, List.mem_filterMap]
  constructor
  · intro h
    exact ⟨_, h, rfl⟩
  · rintro ⟨role, hrole, hname⟩
    cases role <;> cases hname
    exact hrole

theorem Role.literal_mem_roles_iff {e : Expr} {value : Literal} :
    .literal value ∈ e.roles ↔ value ∈ e.literals := by
  rw [← e.filterMap_literal_roles, List.mem_filterMap]
  constructor
  · intro h
    exact ⟨_, h, rfl⟩
  · rintro ⟨role, hrole, hvalue⟩
    cases role <;> cases hvalue
    exact hrole

namespace ParseRules

variable (rules : ParseRules)

-- =================================================================== reviews

/-- Puts a word to the policy. -/
def admitRole : Role → Span → Except ParseFailure Unit
  | .called name, span => refuse (rules.policy.checkName name span)
  | .key _, _ => .ok ()
  | .literal value, span => rules.admitLiteral value span

/-- Puts words to the policy, up to the first that is refused. -/
def review : List (Role × Span) → Except ParseFailure Unit
  | [] => .ok ()
  | (role, span) :: words => rules.admitRole role span >>= fun _ => review words

/-- A reading is a review: it comes to `a` unless one of the words is refused. -/
def Comes {α : Type} (words : List (Role × Span)) (reading : Except ParseFailure α) (a : α) :
    Prop :=
  reading = rules.review words >>= fun _ => .ok a

variable {rules}
variable {α : Type} {words : List (Role × Span)} {reading : Except ParseFailure α} {a : α}

theorem review_eq_ok_iff :
    rules.review words = .ok () ↔ ∀ w ∈ words, rules.admitRole w.1 w.2 = .ok () := by
  induction words with
  | nil => simp [review]
  | cons word words ih =>
    obtain ⟨role, span⟩ := word
    rw [review, bind_eq_ok_iff, List.forall_mem_cons, ih]
    constructor
    · rintro ⟨_, hthis, hrest⟩
      exact ⟨hthis, hrest⟩
    · rintro ⟨hthis, hrest⟩
      exact ⟨(), hthis, hrest⟩

/-- Where no word is refused, the reading succeeds. -/
theorem Comes.eq_ok (h : rules.Comes words reading a) (hwords : rules.review words = .ok ()) :
    reading = .ok a := by
  unfold Comes at h
  rw [h, hwords]
  rfl

/-- If the expression is admitted, its words are. The rules look at the same
words on either side. -/
theorem review_eq_ok_of_admits {e : Expr} (hwords : e.roles = words.map Prod.fst)
    (h : rules.Admits e) : rules.review words = .ok () := by
  refine review_eq_ok_iff.2 fun w hw => ?_
  obtain ⟨role, span⟩ := w
  have hrole : role ∈ e.roles := hwords ▸ List.mem_map_of_mem (f := Prod.fst) hw
  cases role with
  | called name =>
    obtain ⟨c, hc, rfl⟩ := List.mem_map.1 (Role.called_mem_roles_iff.1 hrole)
    exact refuse_checkName_eq_ok_iff.2 (h.calls c hc).1
  | key name => rfl
  | literal value =>
    exact admitLiteral_eq_ok_iff.2 (h.literals value (Role.literal_mem_roles_iff.1 hrole))

theorem Admits.orderly {e : Expr} (h : rules.Admits e) : Orderly e :=
  fun c hc => (h.calls c hc).2

end ParseRules

end UiScript
