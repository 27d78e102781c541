/-
How standard handlers answer. One that succeeds answers with a value of
which something can be said. One that fails does so where it is, without
saying so: its failure has no span and no scope, and it blames what the
handler was given, never the name of the call. Both are shown at once, in one
walk along the handler.

# Main statements

* `Checked.Answers.bind`: one thing after the other.
* `positionalAs_answers`, `namedAs_answers`: what is read off an argument.
* `styleToken_answers`, `attributeText_answers`, `safeUrl_answers`: what has
  been checked.
-/
import UiScript.Proofs.Standard.Soundness

namespace UiScript

/-- Whether a cause blames the name of a call. -/
def ExecutionError.Cause.blamesName : ExecutionError.Cause → Bool
  | .unknownOperation _ | .noSuchMethod .. => true
  | _ => false

/-- A failure that is located nowhere and blames what a handler was given. -/
structure ExecutionError.Plain (e : ExecutionError) : Prop where
  span : e.span = none
  scope : e.scope = none
  blames : e.cause.blamesName = false

/-- Only plain failures come out. -/
def Checked.FailsPlainly {α : Type} (r : Checked α) : Prop := ∀ e, r = .error e → e.Plain

/-- What comes out has a property, and what fails fails plainly. -/
structure Checked.Answers {α : Type} (r : Checked α) (P : α → Prop) : Prop where
  yields : ∀ a, r = .ok a → P a
  fails : r.FailsPlainly

namespace Checked.Answers

variable {α β : Type} {P : α → Prop} {Q : β → Prop} {r t : Checked α}

/-- A success answers with whatever it holds. -/
theorem ok {a : α} (h : P a) : Answers (.ok a) P := by
  constructor
  · intro b hb
    cases hb
    exact h
  · intro e he
    cases he

/-- A failure without a place is plain, as long as its cause is not the name
of the call. -/
theorem fail {cause : ExecutionError.Cause} (h : cause.blamesName = false) :
    Answers (Invocation.fail cause) P := by
  constructor
  · intro a ha
    cases ha
  · intro e he
    cases he
    exact ⟨rfl, rfl, h⟩

/-- What answers with something answers with anything that follows from it. -/
theorem mono {R : α → Prop} (h : Answers r P) (hPR : ∀ a, P a → R a) : Answers r R :=
  ⟨fun a ha => hPR a (h.yields a ha), h.fails⟩

/-- The second answer follows from whatever the first one is. -/
theorem bind {f : α → Checked β} (h : Answers r P) (hf : ∀ a, P a → Answers (f a) Q) :
    Answers (r >>= f) Q := by
  cases r with
  | ok a => exact hf a (h.yields a rfl)
  | error e =>
    constructor
    · intro b hb
      cases hb
    · intro e' he
      cases he
      exact h.fails e rfl

/-- What is made of an answer has a property if the answer has it beforehand. -/
theorem map {f : α → β} (h : Answers r fun a => Q (f a)) : Answers (f <$> r) Q := by
  cases r with
  | ok a => exact ok (h.yields a rfl)
  | error e =>
    constructor
    · intro b hb
      cases hb
    · intro e' he
      cases he
      exact h.fails e rfl

/-- A choice answers if both ways do, each under its own condition. -/
theorem ite {c : Prop} [Decidable c] (hr : c → Answers r P) (ht : ¬ c → Answers t P) :
    Answers (if c then r else t) P := by
  by_cases hc : c
  · rw [if_pos hc]
    exact hr hc
  · rw [if_neg hc]
    exact ht hc

end Checked.Answers

open Checked

-- ================================================================= accessors

namespace Invocation

variable (inv : Invocation)

theorem expectPositional_answers (count : Nat) :
    Answers (inv.expectPositional count) fun _ => True :=
  .ite (fun _ => .ok trivial) fun _ => .fail rfl

theorem expectMaxPositional_answers (most : Nat) :
    Answers (inv.expectMaxPositional most) fun _ => True :=
  .ite (fun _ => .ok trivial) fun _ => .fail rfl

/-- A key that is not known is blamed, and not the name of the call. -/
theorem expectNamedOnly_answers (keys : List String) :
    Answers (inv.expectNamedOnly keys) fun _ => True := by
  unfold expectNamedOnly
  split
  · exact .fail rfl
  · exact .ok trivial

theorem rejectBlock_answers : Answers inv.rejectBlock fun _ => True :=
  .ite (fun _ => .fail rfl) fun _ => .ok trivial

/-- A positional argument that comes out is there, and `view` makes that of
it. Every accessor for positional arguments is this one with a view of its
own. -/
theorem positionalAs_answers {α : Type} (view : Value → Option α) (expected : String)
    (index : Nat) : Answers (inv.positionalAs view expected index) fun a =>
      (inv.positionalArg? index).bind view = some a := by
  unfold positionalAs
  split
  · exact .fail rfl
  · next value hvalue =>
    split
    · next a ha =>
      apply Answers.ok
      rw [hvalue]
      exact ha
    · exact .fail rfl

/-- A named argument comes out as `view` sees it, if it is given. A nil counts
as left out, whatever the view would make of it. -/
theorem namedAs_answers {α : Type} (view : Value → Option α) (expected key : String) :
    Answers (inv.namedAs view expected key) fun given =>
      given.map some = (inv.givenArg? key).map view := by
  unfold namedAs
  split
  · next hnone =>
    apply Answers.ok
    rw [hnone]
    rfl
  · next value hvalue =>
    split
    · next a ha =>
      apply Answers.ok
      rw [hvalue]
      exact congrArg some ha.symm
    · exact .fail rfl

theorem requiredNamedString_answers (key : String) :
    Answers (inv.requiredNamedString key) fun _ => True := by
  refine (inv.namedAs_answers _ _ _).bind fun given _ => ?_
  cases given with
  | none => exact .fail rfl
  | some s => exact .ok trivial

end Invocation

-- ==================================================================== checks

namespace Standard

variable (inv : Invocation)

/-- What passes the check of a style token is one. -/
theorem styleToken_answers (arg value : String) :
    Answers (styleToken inv arg value) fun token => isStyleToken token = true :=
  .ite (fun h => .ok h) fun _ => .fail rfl

/-- What passes the check of an attribute text is one. -/
theorem attributeText_answers (arg value : String) :
    Answers (attributeText inv arg value) fun text => isAttributeText text = true :=
  .ite (fun h => .ok h) fun _ => .fail rfl

/-- What passes the check of a URL is one. -/
theorem safeUrl_answers (arg value : String) :
    Answers (safeUrl inv arg value) fun url => isSafeUrl url = true :=
  .ite (fun h => .ok h) fun _ => .fail rfl

theorem positionalToken_answers (index : Nat) :
    Answers (positionalToken inv index) fun token => isStyleToken token = true :=
  (inv.positionalAs_answers _ _ _).bind fun value _ => styleToken_answers inv _ value

/-- A named token is read, and checked if it is given. All that is used of it
later is that it is made of style characters. -/
theorem namedToken_answers (key : String) :
    Answers (namedToken inv key) fun given => ∀ token, given = some token → Styled token := by
  refine (inv.namedAs_answers _ _ _).bind fun given _ => ?_
  cases given with
  | none => exact .ok fun _ h => nomatch h
  | some value =>
    refine .map ((styleToken_answers inv key value).mono fun token htoken t ht => ?_)
    exact Option.some.inj ht ▸ Styled.of_isStyleToken htoken

end Standard

end UiScript
