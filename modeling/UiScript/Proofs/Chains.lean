/-
Chains of modifiers. A modifier leaves an element as it is but for one
attribute, and which classes it adds is settled before it sees the element.
So the classes at the end of a chain are those that its operation gives, and
then those of each modifier, in the order of the source.

A chain is evaluated from the inside out, and a call in it is prepared, its
arguments and its block evaluated, after its receiver is. The induction is
along the chain, from its last call on: what comes of the calls before it is
the element that its modifier is given.

# Main statements

* `Touches.gives`: what a modifier makes of an element.
* `dispatch_modifier_gives`, `evaluate_linked`: what a call at the end of a
  chain comes to, and the whole chain.
* `modifiers_only_decorate`: modifiers on their own and in chains.
-/
import Mathlib.Data.List.Induction
import UiScript.Proofs.Standard.Contributions

namespace UiScript

variable {σ α β : Type}

-- ======================================================================= chains

/-- An expression with calls chained to it, one after another. -/
def Expr.linked (e : Expr) (links : List Call) : Expr :=
  links.foldl (fun receiver link => .call { link with receiver := some receiver }) e

theorem Expr.linked_concat (e : Expr) (links : List Call) (link : Call) :
    e.linked (links ++ [link]) = .call { link with receiver := some (e.linked links) } := by
  rw [linked, List.foldl_append]
  rfl

namespace Execution

section
variable (table : Table σ) (scope : Scope)

/-- What a call hands to its handler, its arguments and its block evaluated. -/
def prepare (c : Call) : Action σ Invocation := do
  let args ← evaluateArguments table scope c.args
  let children ← evaluateBlock table scope c.method c.block
  pure (invocationOf c.method args children c.span)

/-- A call is prepared after its receiver is evaluated, and then dispatched. -/
theorem evaluate_call_prepare (c : Call) :
    evaluate table scope (.call c) = (do
      let receiver ← evaluateReceiver table scope c.receiver
      let inv ← prepare table scope c
      adaptFailure (·.withSpan c.span) (dispatch table receiver inv)) := by
  rw [evaluate_call]
  simp only [prepare, bind_assoc, pure_bind]

end

end Execution

namespace Standard

open Checked Execution
open Element (SameBut classKey)

-- ==================================================================== modifiers

/-- The classes that a modifier adds: those of an element that had none. -/
def addedBy (f : Element → Checked Value) : List String :=
  match f (.ofTag "") with
  | .ok v => v.elements.flatMap Element.classes
  | .error _ => []

/-- The classes that the modifier with the name of an invocation adds. -/
def addedClasses (inv : Invocation) : List String :=
  match Table.find? inv.method modifiers with
  | some modifier => addedBy (modifier · inv)
  | none => []

/-- What succeeds with one element does the same edit to all. -/
theorem Edits.exists_of_ok {γ : Type} {edit : Element → γ → α} {P : γ → Prop}
    {f : Element → Checked α} (h : Edits edit P f) {e : Element} {a : α} (ha : f e = .ok a) :
    ∃ given, a = edit e given ∧ ∀ e', f e' = .ok (edit e' given) := by
  obtain ⟨given, -, hf⟩ := h
  rw [hf] at ha
  cases given with
  | error cause => cases ha
  | ok given =>
    cases ha
    exact ⟨given, rfl, hf⟩

section
variable {f : Element → Checked Value} {key : String}

theorem addedBy_of_ok {e : Element} (h : f (.ofTag "") = .ok (.element e)) :
    addedBy f = e.classes := by
  unfold addedBy
  rw [h]
  exact List.append_nil e.classes

theorem classes_ofTag (tag : String) : (Element.ofTag tag).classes = [] := rfl

theorem Sets.gives {P : String → Prop} (h : Sets key P f) (hkey : key ≠ classKey) {e : Element}
    {v : Value} (hv : f e = .ok v) :
    ∃ e', v = .element e' ∧ SameBut key e e' ∧ e'.classes = e.classes ++ addedBy f := by
  obtain ⟨value, rfl, hall⟩ := Edits.exists_of_ok h hv
  have hset (e : Element) : SameBut key e (e.setAttr key value) :=
    Element.sameBut_setAttr e key value
  refine ⟨_, rfl, hset e, ?_⟩
  rw [addedBy_of_ok (hall _), (hset e).classes_eq hkey, (hset _).classes_eq hkey, classes_ofTag,
    List.append_nil]

/-- A modifier gives back one element, with its classes added at the end and
all else as it was, but for the one attribute that it touches. -/
theorem Touches.gives (h : Touches f key) {e : Element} {v : Value} (hv : f e = .ok v) :
    ∃ e', v = .element e' ∧ SameBut key e e' ∧ e'.classes = e.classes ++ addedBy f := by
  cases h with
  | classes h =>
    obtain ⟨added, rfl, hall⟩ := Edits.exists_of_ok h hv
    refine ⟨_, rfl, Element.sameBut_addClasses e added, ?_⟩
    rw [addedBy_of_ok (hall _), Element.classes_addClasses, Element.classes_addClasses,
      classes_ofTag, List.nil_append]
  | identity h | label h => exact h.gives (by decide) hv

/-- A modifier that is for another attribute adds no classes. -/
theorem Touches.addedBy_eq_nil (h : Touches f key) (hkey : key ≠ classKey) : addedBy f = [] := by
  cases hf : f (.ofTag "") with
  | error cause =>
    unfold addedBy
    rw [hf]
  | ok v =>
    obtain ⟨e, -, hsame, hclasses⟩ := h.gives hf
    rw [hsame.classes_eq hkey] at hclasses
    exact hclasses.symm

end

-- ===================================================================== dispatch

/-- A call on an element gives back one element, with the classes of its
modifier added at the end. -/
theorem dispatch_modifier_gives (e : Element) (inv : Invocation) :
    Action.Yields (dispatch table (some (.element e)) inv) fun v =>
      ∃ e', v = .element e' ∧ e'.classes = e.classes ++ addedClasses inv := by
  cases hfound : table.modifier? inv.method with
  | none =>
    rw [dispatch_no_modifier hfound]
    exact .failWith _
  | some modifier =>
    rw [dispatch_element hfound]
    obtain ⟨m, hm, rfl⟩ := exists_of_modifier? hfound
    refine .ofChecked fun v hv => ?_
    obtain ⟨e', rfl, -, hclasses⟩ := (modifiers_touch _ (Table.mem_of_find? hm) inv).gives hv
    refine ⟨e', rfl, ?_⟩
    rw [hclasses, addedClasses, hm]

/-- A call without a receiver makes one element. -/
theorem evaluate_operation_makes {c : Call} (hc : c.receiver = none) (scope : Scope) :
    Action.Yields (evaluate table scope (.call c)) fun v => ∃ e, v = .element e := by
  rw [evaluate_call_prepare, hc]
  refine Action.Yields.bind (P := (· = none)) (.pure rfl) ?_
  rintro _ rfl
  refine Action.Yields.bind (P := fun _ => True) (fun _ _ _ => trivial) fun inv _ => ?_
  exact ((dispatch_operation_makes inv).mono fun _ h => h.1).adaptFailure _

-- ======================================================================= chains

/-- The classes at the end of a chain are those of its operation and then
those of each modifier, in order. -/
theorem evaluate_linked {scope : Scope} {operation : Call} {links : List Call} {value : Value}
    (hreceiver : operation.receiver = none)
    (h : ((evaluate table scope ((Expr.call operation).linked links)).run ()).1 = .ok value) :
    ∃ made e invs, ((evaluate table scope (.call operation)).run ()).1 = .ok (.element made)
      ∧ value = .element e
      ∧ List.Forall₂ (fun link inv => ((prepare table scope link).run ()).1 = .ok inv) links invs
      ∧ e.classes = made.classes ++ invs.flatMap addedClasses := by
  induction links using List.reverseRecOn generalizing value with
  | nil =>
    obtain ⟨made, rfl⟩ := evaluate_operation_makes hreceiver scope () value h
    exact ⟨made, made, [], h, rfl, .nil, (List.append_nil _).symm⟩
  | append_singleton links link ih =>
    rw [Expr.linked_concat, evaluate_call_prepare] at h
    obtain ⟨receiver, _, hreceived, h⟩ := exists_of_bind_ok h
    obtain ⟨inv, _, hprepared, h⟩ := exists_of_bind_ok h
    obtain ⟨before, hbefore, rfl⟩ := exists_of_map_ok (congrArg Prod.fst hreceived)
    obtain ⟨made, e, invs, hmade, rfl, hinvs, hclasses⟩ := ih hbefore
    obtain ⟨e', rfl, hadded⟩ := dispatch_modifier_gives e inv () value (ok_of_adaptFailure h)
    refine ⟨made, e', invs ++ [inv], hmade, rfl, ?_, ?_⟩
    · exact List.rel_append hinvs (.cons (congrArg Prod.fst hprepared) .nil)
    · rw [hadded, hclasses, List.flatMap_append, List.flatMap_singleton, List.append_assoc]

/-- Modifiers only decorate. What one makes of an element, if it succeeds, is
one element that has the tag, the text and the children that it had, and the
attributes other than the one that the modifier is for; its classes are those
that it had and then those that the modifier adds. At the end of a chain, the
classes are those of its operation and then those of each modifier, in the
order of the source. -/
theorem modifiers_only_decorate :
    (∀ m ∈ modifiers, ∀ e inv v, m.2 e inv = .ok v → ∃ e', v = .element e'
      ∧ SameBut (touchedKey m.1) e e' ∧ e'.classes = e.classes ++ addedBy (m.2 · inv)
      ∧ (m.1 = "id" ∨ m.1 = "aria_label" → addedBy (m.2 · inv) = []))
    ∧ ∀ (scope : Scope) (operation : Call) (links : List Call) (value : Value),
      operation.receiver = none →
      ((evaluate table scope ((Expr.call operation).linked links)).run ()).1 = .ok value →
      ∃ made e invs, ((evaluate table scope (.call operation)).run ()).1 = .ok (.element made)
        ∧ value = .element e
        ∧ List.Forall₂ (fun link inv => ((prepare table scope link).run ()).1 = .ok inv) links invs
        ∧ e.classes = made.classes ++ invs.flatMap addedClasses := by
  refine ⟨fun m hm e inv v hv => ?_, fun _ _ _ _ hreceiver h => evaluate_linked hreceiver h⟩
  have htouches := modifiers_touch m hm inv
  obtain ⟨e', rfl, hsame, hclasses⟩ := htouches.gives hv
  refine ⟨e', rfl, hsame, hclasses, fun hname => htouches.addedBy_eq_nil ?_⟩
  rcases hname with hname | hname
  · rw [hname]
    decide
  · rw [hname]
    decide

/-- A badge. -/
def newBadge : Call :=
  ⟨none, "badge", [.positional (.literal (.string "A") ⟨6, 9⟩)], none, ⟨0, 10⟩⟩

/-- What is chained to it: classes, an identity, and room above. -/
def badgeLinks : List Call :=
  [⟨none, "css_class", [.positional (.literal (.string "a  b") ⟨21, 27⟩)], none, ⟨0, 28⟩⟩,
    ⟨none, "id", [.positional (.literal (.symbol "top") ⟨32, 36⟩)], none, ⟨0, 37⟩⟩,
    ⟨none, "padding", [.named "top" (.literal (.number (.int 4)) ⟨51, 52⟩) ⟨46, 52⟩], none, ⟨0, 53⟩⟩]

/-- Classes are added behind two that stand between blanks; and the badge has
its own class, those of the first modifier and that of the last. -/
theorem modifiers_only_decorate_badge :
    (let e : Element := ⟨"p", [("class", " x  y "), ("id", "i")], none, []⟩
      ∃ e', cssClass e ⟨"css_class", [.string "c  d"], [], none, ⟨0, 0⟩⟩ = .ok (.element e')
        ∧ SameBut classKey e e' ∧ e'.classes = ["x", "y", "c", "d"])
    ∧ newBadge.receiver = none
    ∧ ∃ (e : Element) (invs : List Invocation),
      ((evaluate table .root ((Expr.call newBadge).linked badgeLinks)).run ()).1
        = .ok (.element e) ∧ e.classes = ["badge"] ++ invs.flatMap addedClasses
        ∧ e.classes = ["badge", "a", "b", "pt-4"] := by
  have hmember : ("css_class", cssClass) ∈ modifiers := by simp [modifiers]
  obtain ⟨e', he', hsame, hclasses, -⟩ := modifiers_only_decorate.1 _ hmember
    ⟨"p", [("class", " x  y "), ("id", "i")], none, []⟩
    ⟨"css_class", [.string "c  d"], [], none, ⟨0, 0⟩⟩ _ rfl
  obtain ⟨made, e, invs, hmade, he, -, hchain⟩ :=
    modifiers_only_decorate.2 .root newBadge badgeLinks _ rfl rfl
  obtain rfl := Value.element.inj (Except.ok.inj hmade)
  refine ⟨⟨e', congrArg Except.ok he', hsame, hclasses.trans rfl⟩, rfl, e, invs,
    congrArg Except.ok he, hchain, ?_⟩
  obtain rfl := Value.element.inj he
  rfl

end Standard

end UiScript
