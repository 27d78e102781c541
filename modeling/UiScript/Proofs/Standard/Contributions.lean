/-
Operations say what they are given to say. What an operation makes of an
invocation, if it does not fail, is one sound element; its children are the
elements of the block, behind the title if there is one. So its text is what
its first argument, its title and its block say, or as much of that as the
operation shows.

# Main statements

* `card_makes`, `listItem_makes` and the like: what each operation makes.
* `operations_make`: what every operation makes is one element, which is sound
  and says what the operation contributes.
* `dispatch_operation_makes`: the same for a call without a receiver.
* `table_failsWith_plain`: how the handlers of the standard table fail.
-/
import UiScript.Proofs.Element.Walks
import UiScript.Proofs.Execution.Fails
import UiScript.Proofs.Standard.Decoration

namespace UiScript

open Checked

-- ==================================================================== texts

/-- A literal as it is displayed. -/
def Literal.text (value : Literal) : String := (Value.ofLiteral value).text

/-- What a literal says: nothing if it is nil. -/
def Literal.content : Literal → String
  | .nil => ""
  | value => value.text

/-- The literal that a value is, unless it holds elements. -/
def Value.literal? : Value → Option Literal
  | .string value => some (.string value)
  | .number value => some (.number value)
  | .boolean value => some (.boolean value)
  | .nil => some .nil
  | .symbol name => some (.symbol name)
  | .element _ | .fragment _ => none

/-- A literal is found again in the value that it became. -/
theorem Value.literal?_ofLiteral (value : Literal) :
    (Value.ofLiteral value).literal? = some value := by
  cases value <;> rfl

/-- What can be shown is an element or a fragment, and no literal. -/
theorem Value.literal?_eq_none {v : Value} (h : v.isRenderable = true) : v.literal? = none := by
  cases v with
  | element e => rfl
  | fragment es => rfl
  | _ => cases h

-- ================================================================= accessors

namespace Invocation

variable (inv : Invocation)

/-- The first positional argument as it is displayed. -/
def firstText : String := (inv.positional.head?.bind Value.literal?).elim "" Literal.text

/-- What the title says, if one is given. -/
def titleText : String := ((inv.namedArg? "title").bind Value.literal?).elim "" Literal.content

/-- What an accessor takes for text is the text of the literal that the value
came from. -/
theorem text_of_asText? {value : Value} {content : String} (h : asText? value = some content) :
    content = value.literal?.elim "" Literal.text := by
  cases value <;> cases h <;> rfl

/-- The text that an operation takes for its first argument is the first text
of the invocation. -/
theorem positionalText_answers : Answers (inv.positionalText 0) (· = inv.firstText) := by
  refine (inv.positionalAs_answers _ _ _).mono fun content hcontent => ?_
  obtain ⟨value, hvalue, hcontent⟩ := Option.bind_eq_some_iff.1 hcontent
  have hfirst : inv.positional.head? = some value := List.head?_eq_getElem?.trans hvalue
  rw [firstText, hfirst]
  exact text_of_asText? hcontent

/-- The title of a card is the named one, or nothing. -/
theorem title_answers : Answers (inv.namedString "title") fun given =>
    given.getD "" = inv.titleText := by
  refine (inv.namedAs_answers _ _ _).mono fun given hgiven => ?_
  unfold givenArg? at hgiven
  unfold titleText
  cases hnamed : inv.namedArg? "title" with
  | none =>
    rw [hnamed] at hgiven
    rw [Option.map_eq_none_iff.1 hgiven]
    rfl
  | some value =>
    rw [hnamed] at hgiven
    cases value with
    | nil =>
      -- a title that is nil counts as left out
      rw [Option.map_eq_none_iff.1 hgiven]
      rfl
    | string s =>
      obtain ⟨_, rfl, h⟩ := Option.map_eq_some_iff.1 hgiven
      cases h
      rfl
    | _ =>
      obtain ⟨_, -, h⟩ := Option.map_eq_some_iff.1 hgiven
      cases h

end Invocation

namespace Standard

open Element (AllSound Sound allSound_append allSound_cons allSound_nil textOf)
open Execution

variable (e : Element) (inv : Invocation)

-- ================================================================ operations

/-- A sound element that says `own` itself and has these children. -/
structure Makes (own : String) (children : List Element) (e : Element) : Prop where
  sound : e.Sound
  text : e.text.getD "" = own
  children : e.children = children

namespace Makes

variable {own tag : String} {children : List Element} {e : Element}

/-- A fresh element of a known tag has no text and no children. -/
theorem ofTag (htag : tag ∈ elementTags) : Makes "" [] (.ofTag tag) :=
  ⟨Element.sound_ofTag htag, rfl, rfl⟩

theorem withText (h : Makes own children e) (text : String) :
    Makes text children (e.withText text) :=
  ⟨h.sound.withText text, rfl, h.children⟩

/-- More children come behind those that are there. -/
theorem withChildren (h : Makes own children e) (more : List Element) :
    Makes own (children ++ more) (e.withChildren more) :=
  ⟨h.sound.withChildren more, h.text, by rw [← h.children]; rfl⟩

theorem setAttr {key value : String} (h : Makes own children e)
    (hvalue : SoundAttribute key value) : Makes own children (e.setAttr key value) :=
  ⟨h.sound.setAttr hvalue, h.text, h.children⟩

theorem addClass {c : String} (h : Makes own children e) (hc : Styled c) :
    Makes own children (e.addClass c) :=
  ⟨h.sound.addClass hc, by rw [Element.text_addClass, h.text],
    by rw [Element.children_addClass, h.children]⟩

/-- The same for a class that is added only if an argument was given. -/
theorem addGiven {family : String} {given : Option String} (h : Makes own children e)
    (hfamily : Styled family) : (∀ token, given = some token → Styled token) →
      Makes own children (match given with
        | none => e
        | some token => e.addClass s!"{family}-{token}") := by
  intro hgiven
  cases given with
  | none => exact h
  | some token => exact h.addClass (styled_family hfamily (hgiven token rfl))

end Makes

/-- Such an element comes out. -/
def MakesTo (own : String) (children : List Element) (v : Value) : Prop :=
  ∃ e, v = .element e ∧ Makes own children e

/-- What makes an element makes a value that is one. -/
theorem MakesTo.isElement {own : String} {children : List Element} {v : Value}
    (h : MakesTo own children v) : ∃ e, v = .element e := by
  obtain ⟨e, he, -⟩ := h
  exact ⟨e, he⟩

/-- The content of a leaf is the first text of the invocation, whatever keys
it knows. -/
theorem leafContent_answers (keys : List String) :
    Answers (leafContent inv keys) (· = inv.firstText) := by
  refine inv.rejectBlock_answers.bind fun _ _ => ?_
  refine (inv.expectMaxPositional_answers 1).bind fun _ _ => ?_
  refine (inv.expectNamedOnly_answers keys).bind fun _ _ => ?_
  exact inv.positionalText_answers

/-- A leaf says its content and has no children. -/
theorem leaf_makes {tag : String} (htag : tag ∈ elementTags) :
    Answers (leaf inv tag) (MakesTo inv.firstText []) := by
  refine (leafContent_answers inv _).bind fun content hcontent => ?_
  subst hcontent
  exact .ok ⟨_, rfl, (Makes.ofTag htag).withText _⟩

/-- A constant operation makes the element that it is given. -/
theorem constant_makes {own : String} {children : List Element} (he : Makes own children e) :
    Answers (constant inv e) (MakesTo own children) := by
  refine inv.rejectBlock_answers.bind fun _ _ => ?_
  refine (inv.expectPositional_answers 0).bind fun _ _ => ?_
  exact (inv.expectNamedOnly_answers []).bind fun _ _ => .ok ⟨e, rfl, he⟩

/-- The levels that are accepted are those that there are tags for. -/
theorem headingTag_mem {n : Number} {level : Int} (h : headingLevel? n = some level) :
    s!"h{level}" ∈ elementTags := by
  obtain ⟨-, hrange⟩ := Option.filter_eq_some_iff.1 h
  simp only [Bool.and_eq_true, decide_eq_true_eq] at hrange
  have hcases : level = 1 ∨ level = 2 ∨ level = 3 ∨ level = 4 ∨ level = 5 ∨ level = 6 := by omega
  rcases hcases with rfl | rfl | rfl | rfl | rfl | rfl <;> decide

/-- A heading is a leaf whose tag depends on its level. -/
theorem heading_makes : Answers (heading inv) (MakesTo inv.firstText []) := by
  refine (leafContent_answers inv _).bind fun content hcontent => ?_
  subst hcontent
  refine (inv.namedAs_answers _ _ _).bind fun given _ => ?_
  refine Answers.bind (P := fun level : Int => s!"h{level}" ∈ elementTags) ?_ fun level hlevel => ?_
  · cases given with
    | none => exact .ok (by decide)
    | some n =>
      cases hlevel : headingLevel? n with
      | none =>
        simp only [hlevel]
        exact .fail rfl
      | some level =>
        simp only [hlevel]
        exact .ok (headingTag_mem hlevel)
  · exact .ok ⟨_, rfl, (Makes.ofTag hlevel).withText _⟩

theorem button_makes : Answers (button inv) (MakesTo inv.firstText []) := by
  refine (leafContent_answers inv _).bind fun content hcontent => ?_
  subst hcontent
  refine (inv.namedAs_answers _ _ _).bind fun variant _ => ?_
  have htype : SoundAttribute "type" "button" := soundAttribute_fixed (by decide) (by decide)
  have htag := Makes.ofTag (by decide : "button" ∈ elementTags)
  have hplain := ((htag.setAttr htype).addClass (by decide : Styled "btn")).withText inv.firstText
  refine Answers.bind (P := Makes inv.firstText []) ?_ fun styled hstyled => ?_
  · cases variant with
    | none => exact .ok hplain
    | some variant =>
      refine (styleToken_answers inv _ _).bind fun token htoken => ?_
      have hclass := styled_family (by decide : Styled "btn") (.of_isStyleToken htoken)
      exact .ok (hplain.addClass hclass)
  · have hdisabled : SoundAttribute "disabled" "disabled" :=
      soundAttribute_fixed (by decide) (by decide)
    refine (inv.namedAs_answers _ _ _).bind fun _ _ => ?_
    refine .ite (fun _ => ?_) fun _ => .ok ⟨_, rfl, hstyled⟩
    exact .ok ⟨_, rfl, hstyled.setAttr hdisabled⟩

theorem link_makes : Answers (link inv) (MakesTo inv.firstText []) := by
  refine (leafContent_answers inv _).bind fun content hcontent => ?_
  subst hcontent
  refine (inv.requiredNamedString_answers _).bind fun given _ => ?_
  refine (safeUrl_answers inv _ given).bind fun href hhref => ?_
  have hrel : SoundAttribute "rel" "noopener noreferrer" :=
    soundAttribute_fixed (by decide) (by decide)
  have htag := Makes.ofTag (by decide : "a" ∈ elementTags)
  have he := (htag.setAttr (soundAttribute_url (.inl rfl) hhref)).withText inv.firstText
  exact .ite (fun _ => .ok ⟨_, rfl, he.setAttr hrel⟩) fun _ => .ok ⟨_, rfl, he⟩

/-- An image says nothing: its description is an attribute. -/
theorem image_makes : Answers (image inv) (MakesTo "" []) := by
  refine inv.rejectBlock_answers.bind fun _ _ => ?_
  refine (inv.expectPositional_answers 1).bind fun _ _ => ?_
  refine (inv.expectNamedOnly_answers _).bind fun _ _ => ?_
  refine (inv.positionalAs_answers _ _ _).bind fun given _ => ?_
  refine (safeUrl_answers inv _ given).bind fun source hsource => ?_
  refine (inv.namedAs_answers _ _ _).bind fun description _ => ?_
  refine (attributeText_answers inv _ _).bind fun alt halt => ?_
  have htag := Makes.ofTag (by decide : "img" ∈ elementTags)
  have he := htag.setAttr (soundAttribute_url (.inr rfl) hsource)
  exact .ok ⟨_, rfl, he.setAttr (soundAttribute_text (.inl rfl) halt)⟩

theorem badge_makes : Answers (badge inv) (MakesTo inv.firstText []) := by
  refine (leafContent_answers inv _).bind fun content hcontent => ?_
  subst hcontent
  exact .ok ⟨_, rfl, ((Makes.ofTag (by decide)).addClass (by decide)).withText _⟩

/-- An item of a list may have both a text and children. -/
theorem listItem_makes : Answers (listItem inv) (MakesTo inv.firstText inv.childElements) := by
  refine (inv.expectMaxPositional_answers 1).bind fun _ _ => ?_
  refine (inv.expectNamedOnly_answers []).bind fun _ _ => ?_
  refine Answers.bind (P := Makes inv.firstText []) ?_ fun item hitem => ?_
  · refine .ite (fun hempty => .ok ?_) fun _ => .map ?_
    · -- an item without an argument says nothing itself, as if it were given an empty text
      have hfirst : inv.firstText = "" := by
        rw [Invocation.firstText, List.isEmpty_iff.1 hempty]
        rfl
      rw [hfirst]
      exact .ofTag (by decide)
    · refine inv.positionalText_answers.mono fun content hcontent => ?_
      subst hcontent
      exact (Makes.ofTag (by decide)).withText _
  · exact .ok ⟨_, rfl, hitem.withChildren _⟩

/-- Every class for an alignment is made of style characters. -/
theorem styled_alignment {axis : Axis} {alignment c : String}
    (h : axis.alignmentClass? alignment = some c) : Styled c := by
  unfold Axis.alignmentClass? at h
  split at h <;> cases h <;> decide

/-- A stack has the children of its block and no text, along either axis. -/
theorem stack_makes (axis : Axis) : Answers (stack inv axis) (MakesTo "" inv.childElements) := by
  refine (inv.expectPositional_answers 0).bind fun _ _ => ?_
  refine (inv.expectNamedOnly_answers _).bind fun _ _ => ?_
  refine (namedToken_answers inv _).bind fun spacing hspacing => ?_
  have htag := Makes.ofTag (by decide : "div" ∈ elementTags)
  have hdirection : Styled axis.directionClass := by cases axis <;> decide
  have hplain := (htag.addClass (by decide : Styled "flex")).addClass hdirection
  have hfamily : Styled axis.spacingClass := by cases axis <;> decide
  have hspaced := hplain.addGiven hfamily hspacing
  refine (inv.namedAs_answers _ _ _).bind fun alignment _ => ?_
  refine Answers.bind (P := Makes "" []) ?_ fun aligned haligned => ?_
  · cases alignment with
    | none => exact .ok hspaced
    | some alignment =>
      cases hclass : axis.alignmentClass? alignment with
      | none =>
        simp only [hclass]
        exact .fail rfl
      | some c =>
        simp only [hclass]
        exact .ok (hspaced.addClass (styled_alignment hclass))
  · exact .ok ⟨_, rfl, haligned.withChildren _⟩

theorem zstack_makes : Answers (zstack inv) (MakesTo "" inv.childElements) := by
  refine (inv.expectPositional_answers 0).bind fun _ _ => ?_
  refine (inv.expectNamedOnly_answers []).bind fun _ _ => ?_
  exact .ok ⟨_, rfl, ((Makes.ofTag (by decide)).addClass (by decide)).withChildren _⟩

/-- A list has the children of its block and no text, whether it is ordered or
not. -/
theorem list_makes : Answers (list inv) (MakesTo "" inv.childElements) := by
  refine (inv.expectPositional_answers 0).bind fun _ _ => ?_
  refine (inv.expectNamedOnly_answers _).bind fun _ _ => ?_
  refine (inv.namedAs_answers _ _ _).bind fun ordered _ => ?_
  have htag : (if ordered == some true then "ol" else "ul") ∈ elementTags := by
    split <;> decide
  exact .ok ⟨_, rfl, (Makes.ofTag htag).withChildren _⟩

/-- A card puts its title, as an element, in front of the children of its
block. -/
theorem card_makes : Answers (card inv) fun v => ∃ titles, AllSound titles
    ∧ textOf titles = inv.titleText ∧ MakesTo "" (titles ++ inv.childElements) v := by
  refine (inv.expectPositional_answers 0).bind fun _ _ => ?_
  refine (inv.expectNamedOnly_answers _).bind fun _ _ => ?_
  refine inv.title_answers.bind fun given hgiven => ?_
  have hplain : Makes "" [] ((Element.ofTag "div").addClass "card") :=
    (Makes.ofTag (by decide)).addClass (by decide)
  refine Answers.bind (P := fun titled => ∃ titles, AllSound titles
    ∧ textOf titles = inv.titleText ∧ Makes "" titles titled) ?_ fun titled htitled => ?_
  · cases given with
    | none => exact .ok ⟨[], allSound_nil, by rw [Element.textOf_nil]; exact hgiven, hplain⟩
    | some title =>
      refine (attributeText_answers inv _ title).bind fun label hlabel => ?_
      have htag := Makes.ofTag (by decide : "h3" ∈ elementTags)
      have hheading := (htag.addClass (by decide : Styled "card-title")).withText title
      have hlabelled := hplain.setAttr (soundAttribute_text (.inr rfl) hlabel)
      refine .ok ⟨_, ?_, ?_, hlabelled.withChildren _⟩
      · exact allSound_cons.2 ⟨⟨hheading.sound, allSound_nil⟩, allSound_nil⟩
      · rw [List.nil_append, Element.textOf_singleton, Element.textContent_eq, hheading.text,
          hheading.children, Element.textOf_nil, String.append_empty]
        exact hgiven
  · obtain ⟨titles, hsound, htext, he⟩ := htitled
    exact .ok ⟨titles, hsound, htext, _, rfl, he.withChildren _⟩

-- ============================================================= contributions

/-- What a call without a receiver says, by the name of its operation: what is
said by its first argument, by its title and inside its block. -/
def contribution (name first title inside : String) : String :=
  match name with
  | "text" | "paragraph" | "heading" | "badge" | "button" | "link" => first
  | "list_item" => first ++ inside
  | "card" => title ++ inside
  | "vstack" | "hstack" | "zstack" | "list" => inside
  | _ => ""

/-- What an operation makes of an invocation: elements that are as sound as
those of the block, and say what the operation contributes. -/
structure Contributes (name : String) (inv : Invocation) (v : Value) : Prop where
  renderable : v.isRenderable = true
  sound : AllSound inv.childElements → AllSound v.elements
  text : textOf v.elements
    = contribution name inv.firstText inv.titleText (textOf inv.childElements)

section

variable {inv} {name own : String} {children : List Element} {v : Value}

/-- From what an operation makes to what it contributes: its text and the
texts of its children are what the table says for its name. -/
theorem MakesTo.contributes (h : MakesTo own children v)
    (hsound : AllSound inv.childElements → AllSound children)
    (htext : contribution name inv.firstText inv.titleText (textOf inv.childElements)
      = own ++ textOf children) : Contributes name inv v := by
  obtain ⟨e, rfl, he⟩ := h
  refine ⟨rfl, fun hinside => ?_, ?_⟩
  · exact allSound_cons.2 ⟨⟨he.sound, he.children ▸ hsound hinside⟩, allSound_nil⟩
  · show textOf [e] = _
    rw [Element.textOf_singleton, Element.textContent_eq, he.text, he.children, htext]

/-- An element without children says what it says itself. -/
theorem MakesTo.contributes_leaf (h : MakesTo own [] v)
    (htext : contribution name inv.firstText inv.titleText (textOf inv.childElements) = own) :
    Contributes name inv v := by
  apply h.contributes
  · exact fun _ => allSound_nil
  · rw [htext, Element.textOf_nil, String.append_empty]

/-- An element around the block says what is said in front of it and then
inside. -/
theorem MakesTo.contributes_around (h : MakesTo own inv.childElements v)
    (htext : contribution name inv.firstText inv.titleText (textOf inv.childElements)
      = own ++ textOf inv.childElements) : Contributes name inv v :=
  h.contributes id htext

/-- A card contributes its title and then what its block says. -/
theorem card_contributes (inv : Invocation) :
    Answers (card inv) fun v => (∃ e, v = .element e) ∧ Contributes "card" inv v := by
  refine (card_makes inv).mono fun v hv => ?_
  obtain ⟨titles, hsound, htext, he⟩ := hv
  refine ⟨he.isElement, ?_⟩
  apply he.contributes
  · exact fun hinside => allSound_append.2 ⟨hsound, hinside⟩
  · rw [Element.textOf_append, htext, String.empty_append]
    rfl

end

/-- Every operation makes one sound element, which says what the operation
contributes. The list of the table is gone through name by name, and each has
its own lemma above. -/
theorem operations_make : ∀ o ∈ operations, ∀ inv,
    Answers (o.2 inv) fun v => (∃ e, v = .element e) ∧ Contributes o.1 inv v := by
  simp only [operations, List.mem_cons, List.not_mem_nil, or_false, forall_eq_or_imp, forall_eq]
  refine ⟨?_, ?_, ?_, card_contributes, ?_, ?_, ?_, ?_, ?_, ?_, ?_, ?_, ?_, ?_, ?_⟩ <;> intro inv
  · exact (stack_makes inv .vertical).mono fun v h => ⟨h.isElement, h.contributes_around rfl⟩
  · exact (stack_makes inv .horizontal).mono fun v h => ⟨h.isElement, h.contributes_around rfl⟩
  · exact (zstack_makes inv).mono fun v h => ⟨h.isElement, h.contributes_around rfl⟩
  · exact (list_makes inv).mono fun v h => ⟨h.isElement, h.contributes_around rfl⟩
  · exact (leaf_makes inv (by decide)).mono fun v h => ⟨h.isElement, h.contributes_leaf rfl⟩
  · exact (heading_makes inv).mono fun v h => ⟨h.isElement, h.contributes_leaf rfl⟩
  · exact (leaf_makes inv (by decide)).mono fun v h => ⟨h.isElement, h.contributes_leaf rfl⟩
  · exact (button_makes inv).mono fun v h => ⟨h.isElement, h.contributes_leaf rfl⟩
  · exact (link_makes inv).mono fun v h => ⟨h.isElement, h.contributes_leaf rfl⟩
  · exact (image_makes inv).mono fun v h => ⟨h.isElement, h.contributes_leaf rfl⟩
  · have hdivider := Makes.ofTag (by decide : "hr" ∈ elementTags)
    exact (constant_makes _ inv hdivider).mono fun v h => ⟨h.isElement, h.contributes_leaf rfl⟩
  · have hspacer := (Makes.ofTag (by decide : "div" ∈ elementTags)).addClass
      (by decide : Styled "flex-1")
    exact (constant_makes _ inv hspacer).mono fun v h => ⟨h.isElement, h.contributes_leaf rfl⟩
  · exact (badge_makes inv).mono fun v h => ⟨h.isElement, h.contributes_leaf rfl⟩
  · exact (listItem_makes inv).mono fun v h => ⟨h.isElement, h.contributes_around rfl⟩

/-- Every operation makes sound elements, which say what it contributes. -/
theorem operations_contribute :
    ∀ o ∈ operations, ∀ inv, Answers (o.2 inv) (Contributes o.1 inv) :=
  fun o ho inv => (operations_make o ho inv).mono fun _ h => h.2

-- ================================================================== dispatch

/-- What is found under a name is the first operation of that name, and leaves
the state alone. -/
theorem exists_of_operation? {name : String} {operation : Operation Unit}
    (h : table.operation? name = some operation) : ∃ o, Table.find? name operations = some o
      ∧ operation = fun inv => Action.ofChecked (o inv) := by
  have hfind := Table.find?_map name
    (fun _ o inv => (Action.ofChecked (o inv) : Action Unit Value)) operations
  obtain ⟨o, ho, hoperation⟩ := Option.map_eq_some_iff.1 (hfind.symm.trans h)
  exact ⟨o, ho, hoperation.symm⟩

/-- A call without a receiver makes one sound element, which says what its
operation contributes. A name that is no operation fails, and a failure
contributes nothing. -/
theorem dispatch_operation_makes : Action.Yields (dispatch table none inv) fun v =>
    (∃ e, v = .element e) ∧ Contributes inv.method inv v := by
  cases hfound : table.operation? inv.method with
  | none =>
    rw [dispatch_no_operation hfound]
    exact .failWith _
  | some operation =>
    rw [dispatch_operation hfound]
    obtain ⟨o, ho, rfl⟩ := exists_of_operation? hfound
    exact .ofChecked (operations_make _ (Table.mem_of_find? ho) inv).yields

/-- A call without a receiver makes sound elements, which say what its
operation contributes. -/
theorem dispatch_operation_yields :
    Action.Yields (dispatch table none inv) (Contributes inv.method inv) :=
  (dispatch_operation_makes inv).mono fun _ h => h.2

/-- A standard handler that fails is located nowhere and blames what it was
given. The dispatch adds where it stands, and the blocks around it are added
further out. -/
theorem table_failsWith_plain : table.FailsWith ExecutionError.Plain := by
  constructor
  · intro name operation hfound inv
    obtain ⟨o, ho, rfl⟩ := exists_of_operation? hfound
    exact .ofChecked (operations_contribute _ (Table.mem_of_find? ho) inv).fails
  · intro name modifier hfound e inv
    obtain ⟨m, hm, rfl⟩ := exists_of_modifier? hfound
    exact .ofChecked (modifiers_decorate _ (Table.mem_of_find? hm) e inv).fails

end Standard

end UiScript
