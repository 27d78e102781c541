/-
What it matters how named arguments are written. Their order never matters: a
handler of the standard table succeeds with the same value, or fails with a
failure of the same kind, and if it accepts all the keys with the very same
failure.

An argument given as nil is nearly always the same as one left out. The
exception is space around an element: `padding` and `margin` without any
argument miss one, while a single nil is enough to satisfy them, though they
then add nothing.

# Main statements

* `Staged.eq_of_perm`, `Staged.eq_of_nil`: both laws for a staged handler.
* `standard_named_order`: the order of named arguments does not matter.
* `standard_nil_absent`: what nil is the same as.
-/
import Mathlib.Data.List.Nodup
import UiScript.Proofs.Standard.Stages

namespace UiScript

variable {α : Type}

-- ============================================================ what is given

namespace Invocation

variable {inv : Invocation} {key : String} {named before after : List (String × Value)}

/-- Among distinct keys, the argument that is found is the one with the key. -/
theorem find?_key_eq_some_iff (hkeys : (named.map Prod.fst).Nodup) {a : String × Value} :
    named.find? (fun a => a.1 == key) = some a ↔ a ∈ named ∧ a.1 = key := by
  constructor
  · intro hfind
    exact ⟨List.mem_of_find?_eq_some hfind, by simpa using List.find?_some hfind⟩
  · rintro ⟨ha, rfl⟩
    cases hfind : named.find? fun b => b.1 == a.1 with
    | none => exact absurd (List.find?_eq_none.1 hfind a ha) (by simp)
    | some b =>
      have hb := List.mem_of_find?_eq_some hfind
      have hkey : b.1 = a.1 := by simpa using List.find?_some hfind
      rw [List.inj_on_of_nodup_map hkeys hb ha hkey]

/-- Named arguments in another order give the same. -/
theorem alike_of_perm (hperm : named.Perm inv.named) (hkeys : (inv.named.map Prod.fst).Nodup)
    (counts : Bool) : inv.Alike counts named := by
  have hkeys' : (named.map Prod.fst).Nodup := (hperm.map Prod.fst).nodup_iff.2 hkeys
  have hfind (key : String) :
      named.find? (fun a => a.1 == key) = inv.named.find? fun a => a.1 == key := by
    ext a
    rw [find?_key_eq_some_iff hkeys', find?_key_eq_some_iff hkeys, hperm.mem_iff]
  constructor
  · intro key
    unfold givenArg? namedArg? withNamed
    rw [hfind key]
  · intro _ _
    cases hnamed : inv.named with
    | nil =>
      rw [hnamed] at hperm
      rw [hperm.eq_nil]
    | cons a as =>
      obtain ⟨b, bs, rfl⟩ := List.exists_cons_of_ne_nil fun hnil : named = [] => by
        rw [hnil, hnamed] at hperm
        exact absurd hperm.nil_eq (by simp)
      rfl

/-- The last argument with a key, given as nil, gives nothing that would not
be given without it. -/
theorem given_without_nil (hnamed : inv.named = before ++ (key, .nil) :: after)
    (hlast : ∀ a ∈ after, a.1 ≠ key) (other : String) :
    (inv.withNamed (before ++ after)).givenArg? other = inv.givenArg? other := by
  unfold givenArg? namedArg? withNamed
  rw [hnamed, List.find?_append, List.find?_append]
  cases before.find? fun a => a.1 == other with
  | some a => rfl
  | none =>
    by_cases hother : key = other
    · subst hother
      have hafter : after.find? (fun a => a.1 == key) = none := by simpa using hlast
      simp [hafter]
    · rw [List.find?_cons_of_neg (by simpa using hother)]

/-- An expected key may be left out. -/
theorem expectNamedOnly_without {keys : List String} {value : Value}
    (hnamed : inv.named = before ++ (key, value) :: after) (hkey : key ∈ keys) :
    (inv.withNamed (before ++ after)).expectNamedOnly keys = inv.expectNamedOnly keys := by
  unfold expectNamedOnly withNamed
  rw [hnamed, List.find?_append, List.find?_append, List.find?_cons_of_neg (by simpa using hkey)]

end Invocation

open Invocation

-- ================================================================= handlers

/-- A handler accepts a key if it succeeds, for some invocation with that key. -/
def Accepts (handler : Invocation → Checked α) (key : String) : Prop :=
  ∃ inv a, handler inv = .ok a ∧ ∃ b ∈ inv.named, b.1 = key

namespace Staged

variable {keys : List String} {counts : Bool} {look : Invocation → Checked α} {inv : Invocation}
  {key : String} {named before after : List (String × Value)}

/-- What is accepted is expected. -/
theorem mem_of_accepts (h : Staged keys counts look) (haccepts : Accepts look key) :
    key ∈ keys := by
  obtain ⟨inv, a, hok, b, hb, rfl⟩ := haccepts
  exact h.mem_of_ok hok b hb

/-- In any order, named arguments with expected keys lead to the same result. -/
theorem eq_of_perm (h : Staged keys counts look) (hperm : named.Perm inv.named)
    (hkeys : (inv.named.map Prod.fst).Nodup) (hmem : ∀ a ∈ inv.named, a.1 ∈ keys) :
    look (inv.withNamed named) = look inv := by
  refine h.eq_of_alike (alike_of_perm hperm hkeys counts) ?_
  rw [expectNamedOnly_eq_ok_iff.2 hmem]
  exact expectNamedOnly_eq_ok_iff.2 fun a ha => hmem a (hperm.subset ha)

/-- In any order, named arguments lead to the same success, to the same
failure if only expected keys are given, and else to failures with the same
code. -/
theorem order_irrelevant (h : Staged keys counts look) (hperm : named.Perm inv.named)
    (hkeys : (inv.named.map Prod.fst).Nodup) :
    (∀ v, look (inv.withNamed named) = .ok v ↔ look inv = .ok v)
      ∧ ((∀ a ∈ inv.named, a.1 ∈ keys) → look (inv.withNamed named) = look inv)
      ∧ ∀ failure failure', look inv = .error failure →
        look (inv.withNamed named) = .error failure' → failure'.code = failure.code := by
  by_cases hmem : ∀ a ∈ inv.named, a.1 ∈ keys
  · have hsame := h.eq_of_perm hperm hkeys hmem
    refine ⟨fun v => by rw [hsame], fun _ => hsame, fun failure failure' hfail hfail' => ?_⟩
    obtain rfl : failure = failure' := by
      rw [hsame, hfail] at hfail'
      exact Except.error.inj hfail'
    rfl
  · refine ⟨fun v => ?_, fun hall => absurd hall hmem, fun failure failure' hfail hfail' => ?_⟩
    all_goals
      simp only [not_forall] at hmem
      obtain ⟨a, ha, hkey⟩ := hmem
      obtain ⟨e, e', he, he', hcode⟩ :=
        h.refused ⟨a, ha, hkey⟩ ⟨a, hperm.symm.subset ha, hkey⟩
    · simp only [he, he', reduceCtorEq]
    · obtain rfl := Except.error.inj (he.symm.trans hfail)
      obtain rfl := Except.error.inj (he'.symm.trans hfail')
      exact hcode

/-- With an expected key given as nil, or without it, the result is the same,
unless it counts whether there are any named arguments and no others are left. -/
theorem eq_of_nil (h : Staged keys counts look)
    (hnamed : inv.named = before ++ (key, .nil) :: after) (hlast : ∀ a ∈ after, a.1 ≠ key)
    (hkey : key ∈ keys) (hleft : counts = true → inv.positional = [] → before ++ after ≠ []) :
    look (inv.withNamed (before ++ after)) = look inv := by
  refine h.eq_of_alike ⟨given_without_nil hnamed hlast, fun hcounts hpositional => ?_⟩
    (expectNamedOnly_without hnamed hkey)
  obtain ⟨a, as, hcons⟩ := List.exists_cons_of_ne_nil (hleft hcounts hpositional)
  rw [hcons, hnamed]
  cases before <;> rfl

end Staged

-- ==================================================================== order

namespace Standard

/-- The order of named arguments with distinct keys does not matter to a
handler, whatever the element it is called on: it succeeds in any order or in
none, with the same value; it fails with the same failure if it accepts all
the keys, and else with a failure that has the same code. -/
theorem standard_named_order {inv : Invocation} {named : List (String × Value)}
    (hperm : named.Perm inv.named) (hkeys : (inv.named.map Prod.fst).Nodup) :
    (∀ o ∈ operations,
      (∀ v, o.2 (inv.withNamed named) = .ok v ↔ o.2 inv = .ok v)
        ∧ ((∀ a ∈ inv.named, Accepts o.2 a.1) → o.2 (inv.withNamed named) = o.2 inv)
        ∧ ∀ failure failure', o.2 inv = .error failure →
          o.2 (inv.withNamed named) = .error failure' → failure'.code = failure.code)
      ∧ ∀ m ∈ modifiers, ∀ e,
        (∀ v, m.2 e (inv.withNamed named) = .ok v ↔ m.2 e inv = .ok v)
          ∧ ((∀ a ∈ inv.named, ∃ e', Accepts (m.2 e') a.1) →
            m.2 e (inv.withNamed named) = m.2 e inv)
          ∧ ∀ failure failure', m.2 e inv = .error failure →
            m.2 e (inv.withNamed named) = .error failure' → failure'.code = failure.code := by
  constructor
  · intro o ho
    obtain ⟨keys, hstaged⟩ : ∃ keys, Staged keys false o.2 := operations_staged o ho
    obtain ⟨hok, hsame, hfail⟩ := hstaged.order_irrelevant hperm hkeys
    exact ⟨hok, fun h => hsame fun a ha => hstaged.mem_of_accepts (h a ha), hfail⟩
  · intro m hm e
    -- modifiers of edges count their named arguments, and reordering does not change how many
    -- there are
    obtain ⟨keys, counts, hstaged⟩ : ∃ keys counts, ∀ e, Staged keys counts (m.2 e) := by
      obtain ⟨-, keys, hstaged⟩ | ⟨-, family, heq⟩ := modifiers_staged m hm
      · exact ⟨keys, false, hstaged⟩
      · exact ⟨_, true, fun e => by rw [heq]; exact edgeClasses_staged e family⟩
    obtain ⟨hok, hsame, hfail⟩ := (hstaged e).order_irrelevant hperm hkeys
    refine ⟨hok, fun h => hsame fun a ha => ?_, hfail⟩
    obtain ⟨e', haccepts⟩ := h a ha
    exact (hstaged e').mem_of_accepts haccepts

/-- `button("Save", variant: :primary, disabled: true)` -/
def saveButton : Invocation :=
  ⟨"button", [.string "Save"], [("variant", .symbol "primary"), ("disabled", .boolean true)], none,
    ⟨0, 48⟩⟩

/-- A button is the same with its named arguments the other way round. -/
theorem standard_named_order_saveButton :
    saveButton.named.reverse.Perm saveButton.named ∧ (saveButton.named.map Prod.fst).Nodup
      ∧ (∀ a ∈ saveButton.named, Accepts button a.1)
      ∧ button (saveButton.withNamed saveButton.named.reverse) = button saveButton
      ∧ ∃ v, button saveButton = .ok v := by
  have hperm : saveButton.named.reverse.Perm saveButton.named := List.reverse_perm _
  have hkeys : (saveButton.named.map Prod.fst).Nodup := by decide
  have hok : ∃ v, button saveButton = .ok v := ⟨_, rfl⟩
  have haccepts : ∀ a ∈ saveButton.named, Accepts button a.1 := by
    obtain ⟨v, hv⟩ := hok
    exact fun a ha => ⟨saveButton, v, hv, a, ha, rfl⟩
  obtain ⟨hoperations, -⟩ := standard_named_order hperm hkeys
  have hbutton := hoperations ("button", button) (by simp [operations])
  exact ⟨hperm, hkeys, haccepts, hbutton.2.1 haccepts, hok⟩

-- ====================================================================== nil

variable {inv : Invocation} {e : Element} {family : String}

/-- Edges that are not given add nothing. -/
theorem foldlM_addEdge_absent (h : ∀ key, inv.givenArg? key = none) (es : List (String × String)) :
    es.foldlM (addEdge inv family) e = .ok e := by
  induction es with
  | nil => rfl
  | cons edge es ih =>
    have hstep : addEdge inv family e edge = .ok e := by
      unfold addEdge namedToken namedKeyword namedAs
      rw [h edge.1]
      rfl
    rw [List.foldlM_cons, hstep]
    exact ih

/-- Named arguments that give nothing add nothing, but they are enough. -/
theorem edgeClasses_of_nothing_given (hblock : inv.children = none)
    (hpositional : inv.positional = []) (hnamed : inv.named ≠ [])
    (hkeys : ∀ a ∈ inv.named, a.1 ∈ edges.map Prod.fst)
    (hgiven : ∀ key, inv.givenArg? key = none) :
    edgeClasses e inv family = .ok (.element e) := by
  have hreject : inv.rejectBlock = .ok () := by rw [rejectBlock, hblock]; rfl
  have hmost : inv.expectMaxPositional 1 = .ok () := by rw [expectMaxPositional, hpositional]; rfl
  have hsome : inv.named.isEmpty = false := by simpa using hnamed
  unfold edgeClasses
  rw [hreject, hmost, expectNamedOnly_eq_ok_iff.2 hkeys, hpositional, hsome]
  exact congrArg (Value.element <$> ·) (foldlM_addEdge_absent hgiven edges)

/-- Without any argument, one is missing. -/
theorem edgeClasses_of_no_argument (hblock : inv.children = none)
    (hpositional : inv.positional = []) (hnamed : inv.named = []) :
    edgeClasses e inv family = fail (.missingArgument inv.method (positionalLabel 0)) := by
  obtain ⟨method, positional, named, children, span⟩ := inv
  obtain rfl : children = none := hblock
  obtain rfl : positional = [] := hpositional
  obtain rfl : named = [] := hnamed
  rfl

/-- A block is refused first. -/
theorem edgeClasses_of_block (hblock : inv.children ≠ none) :
    edgeClasses e inv family = fail (.blockNotAccepted inv.method) := by
  obtain ⟨children, hchildren⟩ := Option.ne_none_iff_exists'.1 hblock
  unfold edgeClasses rejectBlock
  rw [hchildren]
  rfl

variable {key : String} {before after : List (String × Value)}

/-- Space around an element, with an edge given as nil and without it. -/
theorem edgeClasses_nil (e : Element) (family : String)
    (hnamed : inv.named = before ++ (key, .nil) :: after)
    (hlast : ∀ a ∈ after, a.1 ≠ key) (hkey : key ∈ edges.map Prod.fst) :
    (¬ (inv.children = none ∧ inv.positional = [] ∧ before ++ after = []) →
        edgeClasses e inv family = edgeClasses e (inv.withNamed (before ++ after)) family)
      ∧ (inv.children = none → inv.positional = [] → before ++ after = [] →
        edgeClasses e inv family = .ok (.element e)
          ∧ edgeClasses e (inv.withNamed (before ++ after)) family
            = fail (.missingArgument inv.method (positionalLabel 0))) := by
  constructor
  · intro hother
    by_cases hblock : inv.children = none
    · refine ((edgeClasses_staged e family).eq_of_nil hnamed hlast hkey ?_).symm
      exact fun _ hpositional hnone => hother ⟨hblock, hpositional, hnone⟩
    · rw [edgeClasses_of_block hblock]
      have hblock' : (inv.withNamed (before ++ after)).children ≠ none := hblock
      exact (edgeClasses_of_block hblock').symm
  · intro hblock hpositional hnone
    refine ⟨?_, edgeClasses_of_no_argument hblock hpositional hnone⟩
    obtain ⟨rfl, rfl⟩ := List.append_eq_nil_iff.1 hnone
    have hgiven (other : String) : inv.givenArg? other = none := by
      rw [← given_without_nil hnamed hlast other]
      rfl
    refine edgeClasses_of_nothing_given hblock hpositional (by simp [hnamed]) ?_ hgiven
    simpa [hnamed] using hkey

/-- The last argument with a key that a handler accepts, given as nil, is the
same to it as that argument left out, whatever else is given. Space around an
element is the exception: where the nil is the only argument, the element
stays as it is, while without it an argument is missing. -/
theorem standard_nil_absent (hnamed : inv.named = before ++ (key, .nil) :: after)
    (hlast : ∀ a ∈ after, a.1 ≠ key) :
    (∀ o ∈ operations, Accepts o.2 key → o.2 inv = o.2 (inv.withNamed (before ++ after)))
      ∧ ∀ m ∈ modifiers, ∀ e, (∃ e', Accepts (m.2 e') key) →
        (¬ (m.1 ∈ spacings ∧ inv.children = none ∧ inv.positional = [] ∧ before ++ after = []) →
          m.2 e inv = m.2 e (inv.withNamed (before ++ after)))
        ∧ (m.1 ∈ spacings → inv.children = none → inv.positional = [] → before ++ after = [] →
          m.2 e inv = .ok (.element e)
            ∧ m.2 e (inv.withNamed (before ++ after))
              = fail (.missingArgument inv.method (positionalLabel 0))) := by
  constructor
  · intro o ho haccepts
    obtain ⟨keys, hstaged⟩ : ∃ keys, Staged keys false o.2 := operations_staged o ho
    exact (hstaged.eq_of_nil hnamed hlast (hstaged.mem_of_accepts haccepts) nofun).symm
  · intro m hm e ⟨e', haccepts⟩
    obtain ⟨hname, keys, hstaged⟩ | ⟨hname, family, heq⟩ := modifiers_staged m hm
    · have hkey := (hstaged e').mem_of_accepts haccepts
      exact ⟨fun _ => ((hstaged e).eq_of_nil hnamed hlast hkey nofun).symm,
        fun hspacing => absurd hspacing hname⟩
    · rw [heq] at haccepts ⊢
      have hkey := (edgeClasses_staged e' family).mem_of_accepts haccepts
      obtain ⟨hsame, hdiffer⟩ := edgeClasses_nil e family hnamed hlast hkey
      exact ⟨fun hother => hsame fun h => hother ⟨hname, h⟩, fun _ => hdiffer⟩

/-- `card(title: nil)` -/
def untitledCard : Invocation := ⟨"card", [], [("title", .nil)], none, ⟨0, 16⟩⟩

/-- A card whose title is nil is a card without a title. -/
theorem standard_nil_absent_untitledCard :
    untitledCard.named = [] ++ ("title", .nil) :: [] ∧ Accepts card "title"
      ∧ card untitledCard = card (untitledCard.withNamed [])
      ∧ ∃ v, card untitledCard = .ok v := by
  have hok : ∃ v, card untitledCard = .ok v := ⟨_, rfl⟩
  have haccepts : Accepts card "title" := by
    obtain ⟨v, hv⟩ := hok
    exact ⟨untitledCard, v, hv, _, List.mem_singleton_self _, rfl⟩
  have hnamed : untitledCard.named = [] ++ ("title", .nil) :: [] := rfl
  obtain ⟨hoperations, -⟩ := standard_nil_absent hnamed (by simp)
  exact ⟨hnamed, haccepts, hoperations ("card", card) (by simp [operations]) haccepts, hok⟩

/-- `padding(top: nil)` -/
def emptyPadding : Invocation := ⟨"padding", [], [("top", .nil)], none, ⟨0, 27⟩⟩

/-- Padding that is nil at the top succeeds and adds nothing. Left out, it is
missing. -/
theorem padding_nil_ne_absent :
    Accepts (padding (.ofTag "span")) "top"
      ∧ padding (.ofTag "span") emptyPadding = .ok (.element (.ofTag "span"))
      ∧ padding (.ofTag "span") (emptyPadding.withNamed [])
        = fail (.missingArgument "padding" "argument 1")
      ∧ padding (.ofTag "span") emptyPadding
        ≠ padding (.ofTag "span") (emptyPadding.withNamed []) := by
  have hgiven : padding (.ofTag "span") emptyPadding = .ok (.element (.ofTag "span")) := rfl
  have habsent : padding (.ofTag "span") (emptyPadding.withNamed [])
      = fail (.missingArgument "padding" "argument 1") := rfl
  refine ⟨⟨emptyPadding, _, hgiven, _, List.mem_singleton_self _, rfl⟩, hgiven, habsent, ?_⟩
  rw [hgiven, habsent]
  exact nofun

end Standard

end UiScript
