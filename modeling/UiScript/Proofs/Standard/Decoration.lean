/-
Modifiers decorate. What a modifier gives back, if it does not fail, is the
element that it was called on, with classes added, or with its identity or
its label set: it neither drops nor changes what is there.

# Main statements

* `modifiers_decorate`: every modifier decorates.
* `dispatch_modifier_yields`: a call with a receiver gives back the elements
  of its receiver, each one decorated.
-/
import UiScript.Proofs.Execution.Watched
import UiScript.Proofs.Execution.Yields
import UiScript.Proofs.Standard.Additions

namespace UiScript

open Checked

namespace Standard

open Element (Decorates)
open Execution

variable (e : Element) (inv : Invocation)

-- ================================================================= modifiers

/-- A decorated element comes out. -/
def DecoratesTo (e : Element) (v : Value) : Prop := ∃ e', v = .element e' ∧ Decorates e e'

theorem decorates_addClasses {e' : Element} {added : List String} (h : Decorates e e')
    (hadded : ∀ c ∈ added, Styled c) : Decorates e (e'.addClasses added) := by
  induction added generalizing e' with
  | nil => exact h
  | cons c added ih =>
    obtain ⟨hc, hadded⟩ := List.forall_mem_cons.1 hadded
    exact ih (h.addClass hc) hadded

theorem Touches.decorates {f : Element → Checked Value} {key : String} (h : Touches f key) :
    Answers (f e) (DecoratesTo e) := by
  cases h with
  | classes h =>
    obtain ⟨added, hadded, hf⟩ := h
    rw [hf]
    exact .map (hadded.mono fun cs hcs => ⟨_, rfl, decorates_addClasses e .refl hcs⟩)
  | identity h =>
    obtain ⟨name, hname, hf⟩ := h
    rw [hf]
    exact .map (hname.mono fun v hv => ⟨_, rfl, .identity .refl hv⟩)
  | label h =>
    obtain ⟨label, hlabel, hf⟩ := h
    rw [hf]
    exact .map (hlabel.mono fun v hv => ⟨_, rfl, .label .refl hv⟩)

/-- Every modifier decorates. What each of them touches was said in
`modifiers_touch`. -/
theorem modifiers_decorate : ∀ m ∈ modifiers, ∀ e inv, Answers (m.2 e inv) (DecoratesTo e) :=
  fun m hm e inv => (modifiers_touch m hm inv).decorates e

-- ================================================================== dispatch

/-- What is found under a name is the first modifier of that name, and leaves
the state alone. -/
theorem exists_of_modifier? {name : String} {modifier : Modifier Unit}
    (h : table.modifier? name = some modifier) : ∃ m, Table.find? name modifiers = some m
      ∧ modifier = fun e inv => Action.ofChecked (m e inv) := by
  have hfind := Table.find?_map name
    (fun _ m (e : Element) inv => (Action.ofChecked (m e inv) : Action Unit Value)) modifiers
  obtain ⟨m, hm, hmodifier⟩ := Option.map_eq_some_iff.1 (hfind.symm.trans h)
  exact ⟨m, hm, hmodifier.symm⟩

theorem applyEach_yields {modifier : Modifier Unit}
    (h : ∀ e, Action.Yields (modifier e inv) (DecoratesTo e)) (es : List Element) :
    Action.Yields (applyEach modifier inv es) (List.Forall₂ Decorates es) := by
  induction es with
  | nil => exact .pure .nil
  | cons e es ih =>
    refine (h e).bind fun v hv => ih.bind fun rest hrest => ?_
    obtain ⟨e', rfl, he'⟩ := hv
    exact .pure (.cons he' hrest)

/-- A call with a receiver gives back the elements of its receiver, each one
decorated. An element gives one, and a fragment as many as it has. -/
theorem dispatch_modifier_yields (v : Value) :
    Action.Yields (dispatch table (some v) inv) fun w =>
      w.isRenderable = true ∧ List.Forall₂ Decorates v.elements w.elements := by
  cases hfound : table.modifier? inv.method with
  | none =>
    rw [dispatch_no_modifier hfound]
    exact .failWith _
  | some modifier =>
    obtain ⟨m, hm, rfl⟩ := exists_of_modifier? hfound
    have hdecorates := modifiers_decorate _ (Table.mem_of_find? hm)
    cases v with
    | element e =>
      rw [dispatch_element hfound]
      refine .ofChecked ((hdecorates e inv).mono fun w hw => ?_).yields
      obtain ⟨e', rfl, he'⟩ := hw
      exact ⟨rfl, .cons he' .nil⟩
    | fragment es =>
      rw [dispatch_fragment hfound]
      refine .map ((applyEach_yields inv ?_ es).mono fun es' hes' => ⟨rfl, hes'⟩)
      exact fun e => .ofChecked (hdecorates e inv).yields
    | _ =>
      rw [dispatch_scalar rfl]
      exact .failWith _

end Standard

end UiScript
