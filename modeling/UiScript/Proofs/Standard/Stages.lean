/-
What standard handlers do with named arguments. Each works in three stages.
The first looks at the block and at the positional arguments and does not see
the named ones. Then the keys are checked. The last stage sees a named
argument only through what it gives, where nil gives nothing; two modifiers
also ask whether there are any named arguments at all.

So the lists of named arguments that a handler can tell apart are those that
give different values, and those with different keys.

# Main statements

* `Staged.eq_of_alike`, `Staged.mem_of_ok`, `Staged.refused`: what the stages
  say of a handler.
* `operations_staged`, `modifiers_staged`: all handlers are staged.
-/
import UiScript.Standard.Table

namespace UiScript

variable {α β : Type}

namespace Invocation

/-- The invocation with other named arguments. -/
def withNamed (inv : Invocation) (named : List (String × Value)) : Invocation := { inv with named }

/-- Other named arguments that give the same. Where it `counts` whether there
are any, they also have to be none, or some, together with those of the
invocation, unless there are positional arguments. -/
structure Alike (counts : Bool) (inv : Invocation) (named : List (String × Value)) : Prop where
  given : ∀ key, (inv.withNamed named).givenArg? key = inv.givenArg? key
  empty : counts = true → inv.positional = [] → named.isEmpty = inv.named.isEmpty

variable {inv : Invocation} {keys : List String}

/-- The keys are accepted if each of them is one that the handler knows. -/
theorem expectNamedOnly_eq_ok_iff :
    inv.expectNamedOnly keys = .ok () ↔ ∀ a ∈ inv.named, a.1 ∈ keys := by
  unfold expectNamedOnly
  cases hfind : inv.named.find? fun a => !keys.contains a.1 with
  | none => simpa using hfind
  | some a =>
    have hmem := List.mem_of_find?_eq_some hfind
    have hkey := List.find?_some hfind
    simp only [Bool.not_eq_true', List.contains_eq_mem, decide_eq_false_iff_not] at hkey
    constructor
    · intro h
      cases h
    · intro h
      exact absurd (h a hmem) hkey

/-- A key that is not expected is refused. -/
theorem expectNamedOnly_refuses (h : ∃ a ∈ inv.named, a.1 ∉ keys) :
    ∃ key, inv.expectNamedOnly keys = fail (.unexpectedArgument inv.method key) := by
  obtain ⟨a, ha, hkey⟩ := h
  cases hfind : inv.named.find? fun a => !keys.contains a.1 with
  | none => exact absurd (List.find?_eq_none.1 hfind a ha) (by simpa using hkey)
  | some b =>
    refine ⟨b.1, ?_⟩
    unfold expectNamedOnly
    rw [hfind]

end Invocation

open Invocation

-- =================================================================== stages

/-- What does not see the named arguments. -/
def Blind (look : Invocation → Checked α) : Prop :=
  ∀ inv named, look (inv.withNamed named) = look inv

/-- What sees no difference between named arguments that give the same. -/
def Steady (counts : Bool) (look : Invocation → Checked α) : Prop :=
  ∀ inv named, inv.Alike counts named → look (inv.withNamed named) = look inv

/-- First what does not see the named arguments, then the check of the keys,
and then what sees no difference between named arguments that give the same. -/
def Staged (keys : List String) (counts : Bool) (look : Invocation → Checked α) : Prop :=
  ∃ (shape : Invocation → Checked Unit) (rest : Invocation → Checked α),
    (∀ inv, look inv = do shape inv; inv.expectNamedOnly keys; rest inv)
      ∧ Blind shape ∧ Steady counts rest

namespace Steady

variable {counts : Bool}

/-- What does not see the named arguments cannot tell any of them apart. -/
theorem of_blind {look : Invocation → Checked α} (h : Blind look) : Steady counts look :=
  fun inv named _ => h inv named

/-- Two looks in a row tell apart no more than each of them does. All handlers
are built from this, so none of them is opened as a whole. -/
theorem bind {look : Invocation → Checked α} {next : α → Invocation → Checked β}
    (h : Steady counts look) (hnext : ∀ a, Steady counts (next a)) :
    Steady counts fun inv => look inv >>= fun a => next a inv := by
  intro inv named halike
  dsimp only
  rw [h inv named halike]
  exact bind_congr fun a => hnext a inv named halike

/-- What is made of the outcome of a look sees nothing of the arguments. -/
theorem map {look : Invocation → Checked α} (h : Steady counts look) (f : α → β) :
    Steady counts fun inv => f <$> look inv := by
  intro inv named halike
  dsimp only
  rw [h inv named halike]

/-- A choice is steady if the question is, and both ways that it may go. -/
theorem ite {c : Invocation → Bool} {look other : Invocation → Checked α}
    (hc : ∀ inv named, inv.Alike counts named → c (inv.withNamed named) = c inv)
    (h : Steady counts look) (hother : Steady counts other) :
    Steady counts fun inv => if c inv then look inv else other inv := by
  intro inv named halike
  dsimp only
  rw [hc inv named halike, h inv named halike, hother inv named halike]

/-- A loop whose every step is steady is steady, by induction on what it goes
through. -/
theorem foldlM {step : Invocation → β → α → Checked β}
    (h : ∀ b a, Steady counts fun inv => step inv b a) (as : List α) (b : β) :
    Steady counts fun inv => as.foldlM (step inv) b := by
  induction as generalizing b with
  | nil => exact of_blind fun inv named => rfl
  | cons a as ih =>
    simp only [List.foldlM_cons]
    exact (h b a).bind ih

/-- A named argument is seen through what it gives. -/
theorem namedAs (view : Value → Option α) (expected key : String) :
    Steady counts fun inv => inv.namedAs view expected key := by
  intro inv named halike
  unfold Invocation.namedAs
  dsimp only
  rw [halike.given key]
  rfl

end Steady

namespace Staged

variable {keys : List String} {counts : Bool} {look : Invocation → Checked α} {inv : Invocation}
  {named : List (String × Value)}

/-- Once the keys are checked, a handler may look at what the arguments give
in any steady way. -/
theorem keys_then {rest : Invocation → Checked α} (h : Steady counts rest) :
    Staged keys counts fun inv => (do inv.expectNamedOnly keys; rest inv) :=
  ⟨fun _ => .ok (), rest, fun _ => rfl, fun _ _ => rfl, h⟩

/-- The check of the keys, and nothing after it. -/
theorem keys_only : Staged keys counts fun inv => inv.expectNamedOnly keys := by
  refine ⟨fun _ => .ok (), fun _ => .ok (), ?_, fun _ _ => rfl, fun _ _ _ => rfl⟩
  intro inv
  cases hexpect : inv.expectNamedOnly keys with
  | ok u => simp only [hexpect]; rfl
  | error e => simp only [hexpect]; rfl

/-- One more look at what is not named, ahead of the rest. -/
theorem after (first : Invocation → Checked Unit) (hfirst : Blind first)
    (h : Staged keys counts look) :
    Staged keys counts fun inv => (do first inv; look inv) := by
  obtain ⟨shape, rest, heq, hshape, hrest⟩ := h
  refine ⟨fun inv => do first inv; shape inv, rest, ?_, ?_, hrest⟩
  · intro inv
    simp only [heq, bind_assoc]
  · intro inv named
    dsimp only
    rw [hfirst inv named, hshape inv named]

/-- More work at the end. -/
theorem bind {next : α → Invocation → Checked β} (h : Staged keys counts look)
    (hnext : ∀ a, Steady counts (next a)) :
    Staged keys counts fun inv => look inv >>= fun a => next a inv := by
  obtain ⟨shape, rest, heq, hshape, hrest⟩ := h
  refine ⟨shape, fun inv => rest inv >>= fun a => next a inv, ?_, hshape, hrest.bind hnext⟩
  intro inv
  simp only [heq, bind_assoc]

/-- Two ways to go on, chosen by what is not named. -/
theorem ite {c : Invocation → Bool} {other : Invocation → Checked α}
    (hc : ∀ inv named, c (inv.withNamed named) = c inv) (h : Staged keys counts look)
    (hother : Staged keys counts other) :
    Staged keys counts fun inv => if c inv then look inv else other inv := by
  obtain ⟨shape, rest, heq, hshape, hrest⟩ := h
  obtain ⟨shape', rest', heq', hshape', hrest'⟩ := hother
  refine ⟨fun inv => if c inv then shape inv else shape' inv,
    fun inv => if c inv then rest inv else rest' inv, ?_, ?_, ?_⟩
  · intro inv
    dsimp only
    cases c inv with
    | true => exact heq inv
    | false => exact heq' inv
  · intro inv named
    dsimp only
    rw [hc inv named, hshape inv named, hshape' inv named]
  · exact hrest.ite (fun inv named _ => hc inv named) hrest'

/-- Named arguments that give the same, and fare the same at the check of the
keys, lead to the same result. -/
theorem eq_of_alike (h : Staged keys counts look) (halike : inv.Alike counts named)
    (hkeys : (inv.withNamed named).expectNamedOnly keys = inv.expectNamedOnly keys) :
    look (inv.withNamed named) = look inv := by
  obtain ⟨shape, rest, heq, hshape, hrest⟩ := h
  rw [heq, heq, hshape inv named, hkeys, hrest inv named halike]

/-- Where there is a success, all keys are expected. -/
theorem mem_of_ok (h : Staged keys counts look) {a : α} (hok : look inv = .ok a) :
    ∀ b ∈ inv.named, b.1 ∈ keys := by
  obtain ⟨shape, rest, heq, -, -⟩ := h
  refine expectNamedOnly_eq_ok_iff.1 ?_
  rw [heq] at hok
  cases hfirst : shape inv with
  | error e =>
    rw [hfirst] at hok
    cases hok
  | ok u =>
    rw [hfirst] at hok
    cases hexpect : inv.expectNamedOnly keys with
    | ok v => rfl
    | error e =>
      have hrun : Except.error e = (.ok a : Checked α) := by
        rw [← hok]
        change _ = inv.expectNamedOnly keys >>= fun _ => rest inv
        rw [hexpect]
        rfl
      cases hrun

/-- With a key that is not expected there is a failure, and its code does not
depend on the named arguments. -/
theorem refused (h : Staged keys counts look) (hhas : ∃ a ∈ inv.named, a.1 ∉ keys)
    (hnamed : ∃ a ∈ named, a.1 ∉ keys) :
    ∃ e e', look inv = .error e ∧ look (inv.withNamed named) = .error e' ∧ e'.code = e.code := by
  obtain ⟨shape, rest, heq, hshape, -⟩ := h
  obtain ⟨key, hkey⟩ := expectNamedOnly_refuses hhas
  have hother : ∃ a ∈ (inv.withNamed named).named, a.1 ∉ keys := hnamed
  obtain ⟨key', hkey'⟩ := expectNamedOnly_refuses hother
  rw [heq, heq, hshape inv named, hkey, hkey']
  cases shape inv with
  | error e => exact ⟨e, e, rfl, rfl, rfl⟩
  | ok u => exact ⟨_, _, rfl, rfl, rfl⟩

end Staged

-- ================================================================= handlers

namespace Standard

variable {counts : Bool}

/-- A named token is looked up by its key, and nil counts as left out. -/
theorem namedToken_steady (key : String) : Steady counts fun inv => namedToken inv key := by
  refine (Steady.namedAs _ _ key).bind fun given => ?_
  cases given with
  | none => exact .of_blind fun _ _ => rfl
  | some value => exact .of_blind fun _ _ => rfl

/-- A required string is looked up in the same way, and nil is missing. -/
theorem requiredNamedString_steady (key : String) :
    Steady counts fun inv => inv.requiredNamedString key := by
  refine (Steady.namedAs _ _ key).bind fun given => .of_blind fun _ _ => ?_
  cases given <;> rfl

/-- Handlers without named arguments only check that there are none. -/
theorem expectOnly_staged (count : Nat) : Staged [] counts fun inv => expectOnly inv count := by
  refine .after rejectBlock (fun _ _ => rfl) ?_
  exact .after (fun inv => inv.expectPositional count) (fun _ _ => rfl) .keys_only

/-- The content of a leaf comes from the positional arguments, before the keys
are checked. -/
theorem leafContent_staged (keys : List String) :
    Staged keys counts fun inv => leafContent inv keys := by
  refine .after rejectBlock (fun _ _ => rfl) ?_
  refine .after (fun inv => inv.expectMaxPositional 1) (fun _ _ => rfl) ?_
  exact .keys_then (.of_blind fun _ _ => rfl)

theorem leaf_staged (tag : String) : Staged [] counts fun inv => leaf inv tag :=
  (leafContent_staged []).bind fun _ => .of_blind fun _ _ => rfl

theorem constant_staged (e : Element) : Staged [] counts fun inv => constant inv e := by
  refine .after rejectBlock (fun _ _ => rfl) ?_
  refine .after (fun inv => inv.expectPositional 0) (fun _ _ => rfl) ?_
  exact .keys_then (.of_blind fun _ _ => rfl)

/-- The level of a heading is looked up behind its content. -/
theorem heading_staged : Staged ["level"] counts heading := by
  refine (leafContent_staged _).bind fun content => ?_
  exact (Steady.namedAs _ _ _).bind fun given => .of_blind fun _ _ => rfl

theorem button_staged : Staged ["variant", "disabled"] counts button := by
  refine (leafContent_staged _).bind fun label => ?_
  refine Steady.bind (Steady.namedAs _ _ _) fun given => ?_
  refine Steady.bind (.of_blind fun _ _ => ?_) fun styled => ?_
  · cases given <;> rfl
  · exact (Steady.namedAs _ _ _).bind fun disabled => .of_blind fun _ _ => rfl

/-- The target of a link must be given, and is checked as a URL once it is
found. -/
theorem link_staged : Staged ["href"] counts link := by
  refine (leafContent_staged _).bind fun label => ?_
  exact (requiredNamedString_steady _).bind fun href => .of_blind fun _ _ => rfl

theorem image_staged : Staged ["alt"] counts image := by
  refine .after rejectBlock (fun _ _ => rfl) ?_
  refine .after (fun inv => inv.expectPositional 1) (fun _ _ => rfl) ?_
  refine .keys_then ?_
  have hgiven : Steady counts fun inv => inv.positionalString 0 := .of_blind fun _ _ => rfl
  refine hgiven.bind fun given => ?_
  refine Steady.bind (.of_blind fun _ _ => rfl) fun source => ?_
  exact (Steady.namedAs _ _ _).bind fun alt => .of_blind fun _ _ => rfl

theorem listItem_staged : Staged [] counts listItem := by
  refine .after (fun inv => inv.expectMaxPositional 1) (fun _ _ => rfl) ?_
  exact .keys_then (.of_blind fun _ _ => rfl)

/-- Spacing and alignment are checked and turned into classes in the last
stage, along whatever axis the stack has. -/
theorem stack_staged (axis : Axis) :
    Staged ["spacing", "alignment"] counts fun inv => stack inv axis := by
  refine .after (fun inv => inv.expectPositional 0) (fun _ _ => rfl) ?_
  refine .keys_then (Steady.bind (namedToken_steady _) fun spacing => ?_)
  exact (Steady.namedAs _ _ _).bind fun alignment => .of_blind fun _ _ => rfl

theorem zstack_staged : Staged [] counts zstack := by
  refine .after (fun inv => inv.expectPositional 0) (fun _ _ => rfl) ?_
  exact .keys_then (.of_blind fun _ _ => rfl)

/-- The title of a card is checked before the children are put behind it. -/
theorem card_staged : Staged ["title"] counts card := by
  refine .after (fun inv => inv.expectPositional 0) (fun _ _ => rfl) ?_
  exact .keys_then ((Steady.namedAs _ _ _).bind fun title => .of_blind fun _ _ => rfl)

theorem list_staged : Staged ["ordered"] counts list := by
  refine .after (fun inv => inv.expectPositional 0) (fun _ _ => rfl) ?_
  exact .keys_then ((Steady.namedAs _ _ _).bind fun ordered => .of_blind fun _ _ => rfl)

/-- Every operation is staged. The list of the table is gone through name by
name, and each has its own lemma above. -/
theorem operations_staged : ∀ o ∈ operations, ∃ keys, Staged keys counts o.2 := by
  simp only [operations, List.mem_cons, List.not_mem_nil, or_false, forall_eq_or_imp, forall_eq]
  exact ⟨⟨_, stack_staged _⟩, ⟨_, stack_staged _⟩, ⟨_, zstack_staged⟩, ⟨_, card_staged⟩,
    ⟨_, list_staged⟩, ⟨_, leaf_staged _⟩, ⟨_, heading_staged⟩, ⟨_, leaf_staged _⟩,
    ⟨_, button_staged⟩, ⟨_, link_staged⟩, ⟨_, image_staged⟩, ⟨_, constant_staged _⟩,
    ⟨_, constant_staged _⟩, ⟨_, (leafContent_staged _).bind fun _ => .of_blind fun _ _ => rfl⟩,
    ⟨_, listItem_staged⟩⟩

-- ================================================================= modifiers

variable (e : Element)

/-- Modifiers that set one class know no named arguments. -/
theorem flagClass_staged (c : String) : Staged [] counts fun inv => flagClass e inv c :=
  (expectOnly_staged 0).bind fun _ => .of_blind fun _ _ => rfl

/-- Modifiers that choose a class of a family take the choice as a positional
argument. -/
theorem familyClass_staged (family : String) :
    Staged [] counts fun inv => familyClass e inv family :=
  (expectOnly_staged 1).bind fun _ => .of_blind fun _ _ => rfl

/-- One edge of a padding or a margin sees the argument of that edge, if it
gives something. -/
theorem addEdge_steady (family : String) (edge : String × String) :
    Steady counts fun inv => addEdge inv family e edge :=
  (namedToken_steady _).bind fun _ => .of_blind fun _ _ => rfl

/-- Space around an element is the one place where it counts whether there are
any named arguments. -/
theorem edgeClasses_staged (family : String) :
    Staged (edges.map Prod.fst) true fun inv => edgeClasses e inv family := by
  refine .after rejectBlock (fun _ _ => rfl) ?_
  refine .after (fun inv => inv.expectMaxPositional 1) (fun _ _ => rfl) ?_
  refine .keys_then (Steady.ite (c := fun inv => inv.positional.isEmpty && inv.named.isEmpty)
    (fun inv named halike => ?_) (.of_blind fun _ _ => rfl) ?_)
  · show (inv.positional.isEmpty && named.isEmpty) = (inv.positional.isEmpty && inv.named.isEmpty)
    cases hpositional : inv.positional with
    | nil => exact halike.empty rfl hpositional
    | cons v vs => rfl
  · refine Steady.bind (.of_blind fun _ _ => ?_) fun even => ?_
    · rfl
    · exact (Steady.foldlM (fun e' edge => addEdge_steady e' family edge) edges even).map _

/-- The colour of a border is looked up behind its width. -/
theorem border_staged : Staged ["color"] counts (border e) := by
  refine .after rejectBlock (fun _ _ => rfl) ?_
  refine .after (fun inv => inv.expectMaxPositional 1) (fun _ _ => rfl) ?_
  refine .keys_then (Steady.bind (.of_blind fun _ _ => ?_) fun framed => ?_)
  · rfl
  · exact (namedToken_steady _).bind fun color => .of_blind fun _ _ => rfl

theorem shadow_staged : Staged [] counts (shadow e) := by
  refine .ite (c := fun inv => inv.positional.isEmpty) (fun _ _ => rfl) ?_ ?_
  · exact flagClass_staged e _
  · exact familyClass_staged e _

theorem opacity_staged : Staged [] counts (opacity e) :=
  (expectOnly_staged 1).bind fun _ => .of_blind fun _ _ => rfl

/-- Width and height of a frame are looked up one after the other. A frame
does not ask whether there are named arguments, unlike paddings and margins. -/
theorem frame_staged : Staged ["width", "height"] counts (frame e) := by
  refine .after rejectBlock (fun _ _ => rfl) ?_
  refine .after (fun inv => inv.expectPositional 0) (fun _ _ => rfl) ?_
  refine .keys_then (Steady.bind (Steady.namedAs _ _ _) fun width => ?_)
  exact (Steady.namedAs _ _ _).bind fun height => .of_blind fun _ _ => rfl

theorem cssClass_staged : Staged [] counts (cssClass e) :=
  (expectOnly_staged 1).bind fun _ => .of_blind fun _ _ => rfl

theorem identity_staged : Staged [] counts (identity e) :=
  (expectOnly_staged 1).bind fun _ => .of_blind fun _ _ => rfl

theorem ariaLabel_staged : Staged [] counts (ariaLabel e) :=
  (expectOnly_staged 1).bind fun _ => .of_blind fun _ _ => rfl

/-- The modifiers that put space around an element. -/
def spacings : List String := ["padding", "margin"]

/-- Every modifier is staged; those that put space around an element are the
ones to which it counts whether there are any named arguments. -/
theorem modifiers_staged : ∀ m ∈ modifiers,
    (m.1 ∉ spacings ∧ ∃ keys, ∀ e, Staged keys false (m.2 e))
      ∨ (m.1 ∈ spacings ∧ ∃ family, m.2 = fun e inv => edgeClasses e inv family) := by
  have hflag (c : String) : ∃ keys, ∀ e, Staged keys false fun inv => flagClass e inv c :=
    ⟨_, fun e => flagClass_staged e c⟩
  have hfamily (family : String) :
      ∃ keys, ∀ e, Staged keys false fun inv => familyClass e inv family :=
    ⟨_, fun e => familyClass_staged e family⟩
  simp only [modifiers, List.mem_cons, List.not_mem_nil, or_false, forall_eq_or_imp, forall_eq]
  exact ⟨.inl ⟨by decide, hfamily _⟩, .inl ⟨by decide, hfamily _⟩, .inl ⟨by decide, hfamily _⟩,
    .inl ⟨by decide, hfamily _⟩, .inl ⟨by decide, hflag _⟩, .inl ⟨by decide, hflag _⟩,
    .inl ⟨by decide, hflag _⟩, .inr ⟨by decide, _, rfl⟩, .inr ⟨by decide, _, rfl⟩,
    .inl ⟨by decide, hfamily _⟩, .inl ⟨by decide, _, border_staged⟩,
    .inl ⟨by decide, _, shadow_staged⟩, .inl ⟨by decide, _, opacity_staged⟩,
    .inl ⟨by decide, _, frame_staged⟩, .inl ⟨by decide, hflag _⟩,
    .inl ⟨by decide, _, cssClass_staged⟩, .inl ⟨by decide, _, identity_staged⟩,
    .inl ⟨by decide, _, ariaLabel_staged⟩⟩

end Standard

end UiScript
