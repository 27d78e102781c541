/-
What modifiers add. A modifier makes up its mind from the invocation alone:
whether it fails, and what it adds if it does not, is the same for every
element that it is called on. It adds classes made of style characters, or
sets one attribute to a value that has been checked. So there is one form
that all modifiers have (`Touches`), and what they do to an element is read
off that form.

# Main statements

* `Adds.bind`, `Adds.foldlM`: additions one after another.
* `modifiers_touch`: every modifier has the form.
-/
import UiScript.Proofs.Standard.Answers
import UiScript.Standard.Table

namespace UiScript.Standard

open Checked
open Element (classKey addClasses_append addClasses_singleton)

variable {α β γ : Type}

-- ======================================================================== edits

/-- What is made of an element is an edit of it. What the edit is given does
not depend on the element, and neither does a failure. -/
def Edits (edit : Element → γ → α) (P : γ → Prop) (f : Element → Checked α) : Prop :=
  ∃ given : Checked γ, Answers given P ∧ ∀ e, f e = edit e <$> given

/-- What is looked at first is not the element. -/
theorem Edits.after {edit : Element → γ → α} {P : γ → Prop} {x : Checked β} {Q : β → Prop}
    {k : Element → β → Checked α} (hx : Answers x Q) (hk : ∀ b, Q b → Edits edit P fun e => k e b) :
    Edits edit P fun e => x >>= k e := by
  cases x with
  | ok b => exact hk b (hx.yields b rfl)
  | error cause =>
    refine ⟨.error cause, ⟨nofun, fun e he => ?_⟩, fun _ => rfl⟩
    cases he
    exact hx.fails cause rfl

/-- Classes are added, and `out` is made of the element. -/
def Adds (out : Element → α) (f : Element → Checked α) : Prop :=
  Edits (fun e added => out (e.addClasses added)) (fun added => ∀ c ∈ added, Styled c) f

/-- One attribute is set to a value that has been checked. -/
def Sets (key : String) (P : String → Prop) (f : Element → Checked Value) : Prop :=
  Edits (fun e value => .element (e.setAttr key value)) P f

namespace Adds

variable {out : Element → α} {f g : Element → Checked α} {first : Element → Checked Element}

theorem nothing : Adds out fun e => .ok (out e) := ⟨.ok [], .ok (by simp), fun _ => rfl⟩

/-- One class is added, which is made of style characters. -/
theorem one {c : String} (hc : Styled c) : Adds out fun e => .ok (out (e.addClass c)) := by
  refine ⟨.ok [c], .ok (by simpa using hc), fun e => ?_⟩
  show _ = Except.ok (out (e.addClasses [c]))
  rw [addClasses_singleton]

/-- A failure is no addition, and it is the same for every element. -/
theorem fail {cause : ExecutionError.Cause} (h : cause.blamesName = false) :
    Adds out fun _ => Invocation.fail cause :=
  ⟨Invocation.fail cause, .fail h, fun _ => rfl⟩

/-- A check comes first, and what it finds may be used: it sees the invocation
alone. -/
theorem after {x : Checked β} {P : β → Prop} {k : Element → β → Checked α} (hx : Answers x P)
    (hk : ∀ b, P b → Adds out fun e => k e b) : Adds out fun e => x >>= k e :=
  Edits.after hx hk

/-- What is added may depend on a question, as long as the element is not
asked. -/
theorem ite {c : Prop} [Decidable c] (hf : c → Adds out f) (hg : ¬ c → Adds out g) :
    Adds out fun e => if c then f e else g e := by
  by_cases hc : c
  · simpa only [if_pos hc] using hf hc
  · simpa only [if_neg hc] using hg hc

/-- Additions to an element, and then to what has come of it. -/
theorem bind (h : Adds (fun e => e) first) (hf : Adds out f) :
    Adds out fun e => first e >>= f := by
  obtain ⟨added, hadded, hfirst⟩ := h
  obtain ⟨more, hmore, hsecond⟩ := hf
  refine ⟨added >>= fun cs => (cs ++ ·) <$> more, ?_, fun e => ?_⟩
  · refine hadded.bind fun cs hcs => .map (hmore.mono fun ds hds => ?_)
    exact fun c hc => (List.mem_append.1 hc).elim (hcs c) (hds c)
  · show first e >>= f = _
    rw [hfirst]
    cases added with
    | error cause => rfl
    | ok cs =>
      show f (e.addClasses cs) = _
      rw [hsecond]
      cases more with
      | error cause => rfl
      | ok ds => exact congrArg (fun e' => Except.ok (out e')) (addClasses_append e cs ds).symm

/-- Only what is made of the element changes. -/
theorem map (h : Adds (fun e => e) first) (out : Element → α) :
    Adds out fun e => out <$> first e := by
  obtain ⟨added, hadded, hfirst⟩ := h
  refine ⟨added, hadded, fun e => ?_⟩
  show out <$> first e = _
  rw [hfirst]
  cases added <;> rfl

/-- Additions in a row, one for each of some things, add all of the classes. -/
theorem foldlM {step : Element → β → Checked Element} {bs : List β}
    (hstep : ∀ b ∈ bs, Adds (fun e => e) fun e => step e b) :
    Adds (fun e => e) fun e => bs.foldlM step e := by
  induction bs with
  | nil => exact nothing
  | cons b bs ih =>
    obtain ⟨hthis, hrest⟩ := List.forall_mem_cons.1 hstep
    simpa only [List.foldlM_cons] using hthis.bind (ih hrest)

end Adds

namespace Sets

variable {key : String} {P : String → Prop}

theorem one {value : Checked String} (h : Answers value P) :
    Sets key P fun e => value >>= fun v => .ok (.element (e.setAttr key v)) :=
  ⟨value, h, fun _ => by cases value <;> rfl⟩

theorem after {x : Checked β} {Q : β → Prop} {k : Element → β → Checked Value} (hx : Answers x Q)
    (hk : ∀ b, Q b → Sets key P fun e => k e b) : Sets key P fun e => x >>= k e :=
  Edits.after hx hk

end Sets

-- ==================================================================== modifiers

variable (inv : Invocation)

theorem expectOnly_answers (count : Nat) : Answers (expectOnly inv count) fun _ => True := by
  refine inv.rejectBlock_answers.bind fun _ _ => ?_
  refine (inv.expectPositional_answers count).bind fun _ _ => ?_
  exact inv.expectNamedOnly_answers []

/-- A modifier that sets one class adds it, once its arguments are checked. -/
theorem flagClass_adds {c : String} (hc : Styled c) : Adds .element (flagClass · inv c) :=
  .after (expectOnly_answers inv 0) fun _ _ => .one hc

/-- A modifier that chooses a class of a family adds a checked token behind
the family's name. -/
theorem familyClass_adds {family : String} (hfamily : Styled family) :
    Adds .element (familyClass · inv family) := by
  refine .after (expectOnly_answers inv 1) fun _ _ => ?_
  refine .after (positionalToken_answers inv 0) fun token htoken => ?_
  have hclass := styled_family hfamily (.of_isStyleToken htoken)
  exact .one hclass

/-- One edge of a padding or a margin adds a class if there is an argument for
it. -/
theorem addEdge_adds {family : String} (hfamily : Styled family) {edge : String × String}
    (hedge : Styled edge.2) : Adds (fun e => e) (addEdge inv family · edge) := by
  refine .after (namedToken_answers inv _) fun given hgiven => ?_
  cases given with
  | none => exact .nothing
  | some token =>
    have hclass := styled_family (hfamily.append hedge) (hgiven token rfl)
    exact .one hclass

/-- A padding or a margin adds the class of all edges, or those of the edges
that are given. -/
theorem edgeClasses_adds {family : String} (hfamily : Styled family) :
    Adds .element (edgeClasses · inv family) := by
  have hedges : ∀ edge ∈ edges, Styled edge.2 := by decide
  refine .after inv.rejectBlock_answers fun _ _ => ?_
  refine .after (inv.expectMaxPositional_answers 1) fun _ _ => ?_
  refine .after (inv.expectNamedOnly_answers _) fun _ _ => ?_
  refine .ite (fun _ => .fail rfl) fun _ => ?_
  refine .bind ?_ (.map (.foldlM fun edge hedge => ?_) _)
  · refine .ite (fun _ => .nothing) fun _ => ?_
    refine .after (positionalToken_answers inv 0) fun token htoken => ?_
    have hclass := styled_family hfamily (.of_isStyleToken htoken)
    exact .one hclass
  · exact addEdge_adds inv hfamily (hedges edge hedge)

/-- A border adds its width, and its colour if one is given. -/
theorem border_adds : Adds .element (border · inv) := by
  refine .after inv.rejectBlock_answers fun _ _ => ?_
  refine .after (inv.expectMaxPositional_answers 1) fun _ _ => ?_
  refine .after (inv.expectNamedOnly_answers _) fun _ _ => ?_
  refine .bind ?_ ?_
  · refine .ite (fun _ => .one (by decide : Styled "border")) fun _ => ?_
    refine .after (positionalToken_answers inv 0) fun width hwidth => ?_
    have hclass := styled_family (by decide : Styled "border") (.of_isStyleToken hwidth)
    exact .one hclass
  · refine .after (namedToken_answers inv _) fun given hgiven => ?_
    cases given with
    | none => exact .nothing
    | some color =>
      have hclass := styled_family (by decide : Styled "border") (hgiven color rfl)
      exact .one hclass

theorem shadow_adds : Adds .element (shadow · inv) :=
  .ite (fun _ => flagClass_adds inv (by decide)) fun _ => familyClass_adds inv (by decide)

/-- An opacity adds the percentage that it comes to. -/
theorem opacity_adds : Adds .element (opacity · inv) := by
  refine .after (expectOnly_answers inv 1) fun _ _ => ?_
  refine .after (inv.positionalAs_answers _ _ _) fun n _ => ?_
  cases hpercent : percentage? n with
  | none => exact .fail rfl
  | some percent =>
    obtain ⟨-, hrange⟩ := Option.filter_eq_some_iff.1 hpercent
    simp only [Bool.and_eq_true, decide_eq_true_eq] at hrange
    obtain ⟨m, rfl⟩ := Int.eq_ofNat_of_zero_le hrange.1
    have hclass := styled_family (by decide : Styled "opacity") (styled_toString_nat m)
    exact .one hclass

/-- A measure of a frame adds a class if it is given. -/
theorem addMeasure_adds {family key : String} (hfamily : Styled family) (given : Option String) :
    Adds (fun e => e) (addMeasure inv family key · given) := by
  cases given with
  | none => exact .nothing
  | some value =>
    refine .after (styleToken_answers inv key value) fun token htoken => ?_
    have hclass := styled_family hfamily (.of_isStyleToken htoken)
    exact .one hclass

theorem frame_adds : Adds .element (frame · inv) := by
  refine .after inv.rejectBlock_answers fun _ _ => ?_
  refine .after (inv.expectPositional_answers 0) fun _ _ => ?_
  refine .after (inv.expectNamedOnly_answers _) fun _ _ => ?_
  refine .after (inv.namedAs_answers _ _ _) fun width _ => ?_
  refine .after (inv.namedAs_answers _ _ _) fun height _ => ?_
  refine .ite (fun _ => .fail rfl) fun _ => ?_
  refine .bind (addMeasure_adds inv (by decide) width) ?_
  exact .map (addMeasure_adds inv (by decide) height) _

/-- A class that is passed is checked before it is added. -/
theorem cssClass_adds : Adds .element (cssClass · inv) := by
  refine .after (expectOnly_answers inv 1) fun _ _ => ?_
  refine .after (inv.positionalAs_answers _ _ _) fun classes _ => ?_
  have hstep (c : String) : Adds (fun e => e) (addCheckedClass inv · c) := by
    refine .after (styleToken_answers inv _ c) fun token htoken => ?_
    exact .one (.of_isStyleToken htoken)
  cases Text.words classes with
  | nil => exact .fail rfl
  | cons c cs => exact .map (.foldlM fun c _ => hstep c) _

theorem identity_sets : Sets "id" (isStyleToken · = true) (identity · inv) := by
  refine .after (expectOnly_answers inv 1) fun _ _ => ?_
  refine .after (inv.positionalAs_answers _ _ _) fun given _ => ?_
  exact .one (styleToken_answers inv _ given)

theorem ariaLabel_sets : Sets "aria-label" (isAttributeText · = true) (ariaLabel · inv) := by
  refine .after (expectOnly_answers inv 1) fun _ _ => ?_
  refine .after (inv.positionalAs_answers _ _ _) fun given _ => ?_
  exact .one (attributeText_answers inv _ given)

/-- A modifier adds classes, or sets the identity or the label; the key is
that of the attribute. -/
inductive Touches (f : Element → Checked Value) : String → Prop where
  | classes (h : Adds .element f) : Touches f classKey
  | identity (h : Sets "id" (isStyleToken · = true) f) : Touches f "id"
  | label (h : Sets "aria-label" (isAttributeText · = true) f) : Touches f "aria-label"

/-- The attribute that a modifier is for, by its name. -/
def touchedKey (name : String) : String :=
  if name = "id" then "id" else if name = "aria_label" then "aria-label" else classKey

/-- Every modifier touches the attribute that it is for. The list of the table
is gone through name by name, and each has its own lemma above. -/
theorem modifiers_touch : ∀ m ∈ modifiers, ∀ inv, Touches (m.2 · inv) (touchedKey m.1) := by
  have hflag {c : String} (hc : Styled c) (inv : Invocation) :
      Touches (flagClass · inv c) classKey :=
    .classes (flagClass_adds inv hc)
  have hfamily {family : String} (h : Styled family) (inv : Invocation) :
      Touches (familyClass · inv family) classKey := .classes (familyClass_adds inv h)
  have hedges {family : String} (h : Styled family) (inv : Invocation) :
      Touches (edgeClasses · inv family) classKey := .classes (edgeClasses_adds inv h)
  simp only [modifiers, List.mem_cons, List.not_mem_nil, or_false, forall_eq_or_imp, forall_eq]
  exact ⟨hfamily (by decide), hfamily (by decide), hfamily (by decide), hfamily (by decide),
    hflag (by decide), hflag (by decide), hflag (by decide), hedges (by decide),
    hedges (by decide), hfamily (by decide), fun inv => .classes (border_adds inv),
    fun inv => .classes (shadow_adds inv), fun inv => .classes (opacity_adds inv),
    fun inv => .classes (frame_adds inv), hflag (by decide),
    fun inv => .classes (cssClass_adds inv), fun inv => .identity (identity_sets inv),
    fun inv => .label (ariaLabel_sets inv)⟩

end UiScript.Standard
