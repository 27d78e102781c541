/-
Sound elements. Every attribute of an element has one of a few keys, and a
value that has been checked for that key; no value holds markup, so that
nothing a program passes can get out of the attribute that it is put in.
Elements stay sound as long as classes are made of style characters and
other attributes of checked values. A modifier does no more than that: it
decorates the element that it is called on.

# Main statements

* `Sound.addClass`, `Sound.setAttr`: what keeps an element sound.
* `Decorates.sound`: a decorated element is as sound as it was.
* `Sound.isStyleChar_of_mem_classes`: the classes of a sound element are made
  of style characters.
-/
import Mathlib.Data.List.Forall2
import UiScript.Proofs.Element.Classes
import UiScript.Proofs.Element.Walks
import UiScript.Standard.Modifiers

namespace UiScript

-- ====================================================================== texts

namespace Text

/-- Trimming adds no character. -/
theorem mem_of_mem_trim {s : String} {c : Char} (h : c ∈ (trim s).toList) : c ∈ s.toList := by
  rw [trim, String.toList_ofList, trimChars, List.mem_reverse] at h
  have hreverse := List.mem_reverse.1 ((List.dropWhile_sublist _).subset h)
  exact (List.dropWhile_sublist _).subset hreverse

/-- A character of a word comes from the text, or from the word that was
begun. -/
theorem mem_of_mem_wordsFrom {cs word w : List Char} {c : Char} (hw : w ∈ wordsFrom word cs)
    (hc : c ∈ w) : c ∈ word ∨ c ∈ cs := by
  induction cs generalizing word with
  | nil =>
    simp only [wordsFrom] at hw
    split at hw
    · cases hw
    · rw [List.mem_singleton.1 hw] at hc
      exact .inl (List.mem_reverse.1 hc)
  | cons d cs ih =>
    simp only [wordsFrom] at hw
    split at hw
    · split at hw
      · exact .inr (List.mem_cons_of_mem _ ((ih hw).resolve_left (by simp)))
      · rcases List.mem_cons.1 hw with rfl | hw
        · exact .inl (List.mem_reverse.1 hc)
        · exact .inr (List.mem_cons_of_mem _ ((ih hw).resolve_left (by simp)))
    · rcases ih hw with h | h
      · rcases List.mem_cons.1 h with rfl | h
        · exact .inr List.mem_cons_self
        · exact .inl h
      · exact .inr (List.mem_cons_of_mem _ h)

/-- The characters of a word are some of the text's. -/
theorem mem_of_mem_words {s w : String} {c : Char} (hw : w ∈ words s) (hc : c ∈ w.toList) :
    c ∈ s.toList := by
  obtain ⟨cs, hcs, rfl⟩ := List.mem_map.1 hw
  rw [String.toList_ofList] at hc
  exact (mem_of_mem_wordsFrom hcs hc).resolve_left (by simp)

end Text

namespace Standard

-- ================================================================= attributes

/-- Whether a text is made of style characters. -/
def Styled (s : String) : Prop := ∀ c ∈ s.toList, isStyleChar c = true

instance (s : String) : Decidable (Styled s) :=
  decidable_of_iff (s.toList.all isStyleChar = true) List.all_eq_true

/-- Two texts of style characters make one. -/
theorem Styled.append {s t : String} (hs : Styled s) (ht : Styled t) : Styled (s ++ t) := by
  intro c hc
  rw [String.toList_append, List.mem_append] at hc
  exact hc.elim (hs c) (ht c)

/-- A checked token is made of style characters; this is the part of the check
that attributes rely on. -/
theorem Styled.of_isStyleToken {s : String} (h : isStyleToken s = true) : Styled s := by
  simp only [isStyleToken, Bool.and_eq_true, List.all_eq_true] at h
  exact h.2

/-- A class of a family is made of style characters if both its parts are. -/
theorem styled_family {family token : String} (hfamily : Styled family) (htoken : Styled token) :
    Styled s!"{family}-{token}" :=
  (hfamily.append (by decide : Styled "-")).append htoken

/-- The digits of a number are style characters. -/
theorem styled_toString_nat (n : Nat) : Styled (toString (n : Int)) := by
  intro c hc
  have hrepr : toString (n : Int) = n.repr := rfl
  rw [hrepr, Nat.repr_eq_ofList_toDigits, String.toList_ofList] at hc
  have hdigit := Nat.isDigit_of_mem_toDigits (by decide) (by decide) hc
  simp [isStyleChar, hdigit]

/-- The keys of all attributes. -/
def attributeKeys : List String :=
  ["class", "type", "disabled", "href", "rel", "src", "alt", "id", "aria-label"]

/-- The tags that operations give. -/
def elementTags : List String :=
  ["span", "h1", "h2", "h3", "h4", "h5", "h6", "p", "button", "a", "img", "hr", "div", "ul", "ol",
    "li"]

/-- An attribute whose value has been checked. -/
structure SoundAttribute (key value : String) : Prop where
  known : key ∈ attributeKeys
  markup : ∀ c ∈ value.toList, isMarkup c = false
  classes : key = "class" → ∀ c ∈ value.toList, isStyleChar c = true ∨ c = ' '
  identity : key = "id" → isStyleToken value = true
  url : key = "href" ∨ key = "src" → isSafeUrl value = true
  text : key = "alt" ∨ key = "aria-label" → isAttributeText value = true

/-- A class attribute is sound if it is made of style characters and spaces,
none of which is markup. -/
theorem soundAttribute_class {value : String}
    (h : ∀ c ∈ value.toList, isStyleChar c = true ∨ c = ' ') : SoundAttribute "class" value where
  known := by decide
  markup c hc := by
    rcases h c hc with hstyle | rfl
    · exact isMarkup_eq_false_of_isStyleChar hstyle
    · decide
  classes _ := h
  identity hkey := absurd hkey (by decide)
  url hkey := absurd hkey (by decide)
  text hkey := absurd hkey (by decide)

/-- Attributes whose values do not come from the program hold no markup
either. -/
theorem soundAttribute_fixed {key value : String} (hkey : key ∈ ["type", "disabled", "rel"])
    (h : value.toList.any isMarkup = false) : SoundAttribute key value := by
  have hmarkup : ∀ c ∈ value.toList, isMarkup c = false := by simpa using h
  have hkeys : key = "type" ∨ key = "disabled" ∨ key = "rel" := by simpa using hkey
  rcases hkeys with rfl | rfl | rfl
  all_goals
    refine ⟨by decide, hmarkup, ?_, ?_, ?_, ?_⟩
    all_goals exact fun hkey => absurd hkey (by decide)

theorem soundAttribute_identity {value : String} (h : isStyleToken value = true) :
    SoundAttribute "id" value where
  known := by decide
  markup c hc := isMarkup_eq_false_of_isStyleChar (Styled.of_isStyleToken h c hc)
  classes hkey := absurd hkey (by decide)
  identity _ := h
  url hkey := absurd hkey (by decide)
  text hkey := absurd hkey (by decide)

theorem soundAttribute_url {key value : String} (hkey : key = "href" ∨ key = "src")
    (h : isSafeUrl value = true) : SoundAttribute key value where
  known := by rcases hkey with rfl | rfl <;> decide
  markup c hc := isMarkup_eq_false_of_isSafeUrl h hc
  classes := by rcases hkey with rfl | rfl <;> exact fun hclass => absurd hclass (by decide)
  identity := by rcases hkey with rfl | rfl <;> exact fun hid => absurd hid (by decide)
  url _ := h
  text := by rcases hkey with rfl | rfl <;> exact fun htext => absurd htext (by decide)

theorem soundAttribute_text {key value : String} (hkey : key = "alt" ∨ key = "aria-label")
    (h : isAttributeText value = true) : SoundAttribute key value where
  known := by rcases hkey with rfl | rfl <;> decide
  markup c hc := by
    simp only [isAttributeText, Bool.and_eq_true, Bool.not_eq_true', List.any_eq_false] at h
    exact Bool.eq_false_iff.2 (h.2 c hc)
  classes := by rcases hkey with rfl | rfl <;> exact fun hclass => absurd hclass (by decide)
  identity := by rcases hkey with rfl | rfl <;> exact fun hid => absurd hid (by decide)
  url := by rcases hkey with rfl | rfl <;> exact fun hurl => absurd hurl (by decide)
  text _ := h

end Standard

namespace Element

open Standard

/-- What is found after setting an attribute is that attribute, or was there
before. -/
theorem mem_insert {key value : String} {attributes : List (String × String)}
    {a : String × String} (h : a ∈ insert key value attributes) :
    a = (key, value) ∨ a ∈ attributes := by
  induction attributes with
  | nil => exact .inl (List.mem_singleton.1 h)
  | cons b rest ih =>
    rw [insert] at h
    split at h
    · rcases List.mem_cons.1 h with rfl | h
      · exact .inl rfl
      · exact .inr (List.mem_cons_of_mem _ h)
    · rcases List.mem_cons.1 h with rfl | h
      · exact .inr List.mem_cons_self
      · exact (ih h).imp_right (List.mem_cons_of_mem _)

/-- The value that is found for a key is one of the attributes. -/
theorem mem_of_attr?_eq_some {e : Element} {key value : String} (h : e.attr? key = some value) :
    (key, value) ∈ e.attributes := by
  obtain ⟨⟨k, v⟩, hfind, rfl⟩ := Option.map_eq_some_iff.1 h
  obtain rfl : k = key := by simpa using List.find?_some hfind
  exact List.mem_of_find?_eq_some hfind

-- ================================================================ sound elements

/-- An element whose tag and attributes are known and checked, apart from its
children. -/
structure Sound (e : Element) : Prop where
  tag : e.tag ∈ textTag :: fragmentTag :: elementTags
  keys : (e.attributes.map Prod.fst).Nodup
  attributes : ∀ a ∈ e.attributes, SoundAttribute a.1 a.2

variable {e : Element}

/-- An element of a known tag without attributes is sound, whatever its text
and children are. -/
theorem sound_bare {tag : String} (htag : tag ∈ textTag :: fragmentTag :: elementTags)
    (text : Option String) (children : List Element) : Sound ⟨tag, [], text, children⟩ where
  tag := htag
  keys := List.nodup_nil
  attributes _ ha := by cases ha

theorem sound_ofTag {tag : String} (htag : tag ∈ elementTags) : (ofTag tag).Sound :=
  sound_bare (List.mem_cons_of_mem _ (List.mem_cons_of_mem _ htag)) _ _

/-- The text of an element does not matter to its attributes, so it may be
any. -/
theorem Sound.withText (h : e.Sound) (text : String) : (e.withText text).Sound :=
  ⟨h.tag, h.keys, h.attributes⟩

/-- The children do not matter, each is looked at on its own. -/
theorem Sound.withChildren (h : e.Sound) (children : List Element) :
    (e.withChildren children).Sound :=
  ⟨h.tag, h.keys, h.attributes⟩

/-- Setting a sound attribute keeps an element sound, and keeps its keys
apart. -/
theorem Sound.setAttr {key value : String} (h : e.Sound) (hvalue : SoundAttribute key value) :
    (e.setAttr key value).Sound where
  tag := h.tag
  keys := by
    rw [keys_setAttr]
    split
    · exact h.keys
    · next hnew =>
      refine List.nodup_append.2 ⟨h.keys, by simp, ?_⟩
      intro k hk k' hk'
      rw [List.mem_singleton.1 hk']
      rintro rfl
      exact hnew hk
  attributes a ha := by
    rcases mem_insert ha with rfl | ha
    · exact hvalue
    · exact h.attributes a ha

/-- Adding a class of style characters keeps an element sound: the other
classes were made of style characters, too, and a space stands between. -/
theorem Sound.addClass {c : String} (h : e.Sound) (hc : Styled c) : (e.addClass c).Sound := by
  have hadded : ∀ d ∈ (Text.trim c).toList, isStyleChar d = true ∨ d = ' ' :=
    fun d hd => .inl (hc d (Text.mem_of_mem_trim hd))
  unfold Element.addClass
  dsimp only
  split
  · exact h
  · split
    · exact h.setAttr (soundAttribute_class hadded)
    · exact h.setAttr (soundAttribute_class hadded)
    · next existing _ hexisting =>
      have hbefore := (h.attributes _ (mem_of_attr?_eq_some hexisting)).classes rfl
      refine h.setAttr (soundAttribute_class fun d hd => ?_)
      simp only [String.toList_append, List.mem_append] at hd
      rcases hd with (hd | hd) | hd
      · exact hbefore d hd
      · exact .inr (by simpa using hd)
      · exact hadded d hd

/-- The classes of a sound element are made of style characters. Classes are
the words of the attribute, and the attribute holds style characters and
spaces. -/
theorem Sound.isStyleChar_of_mem_classes (h : e.Sound) {c : String} (hc : c ∈ e.classes) {d : Char}
    (hd : d ∈ c.toList) : isStyleChar d = true := by
  unfold classes at hc
  split at hc
  · next value hvalue =>
    have hmem := Text.mem_of_mem_words hc hd
    rcases (h.attributes _ (mem_of_attr?_eq_some hvalue)).classes rfl d hmem with hstyle | rfl
    · exact hstyle
    · have hblank := Text.not_isBlank_of_mem_words hc hd
      cases hblank
  · cases hc

-- ================================================================ sound trees

/-- Whether elements and all below them are sound. -/
def AllSound (es : List Element) : Prop := ∀ n ∈ nodesOf es, n.Sound

theorem allSound_nil : AllSound [] := by
  intro n hn
  cases hn

/-- An element and others are all sound if it is, all below it are, and the
others are. -/
theorem allSound_cons {es : List Element} :
    AllSound (e :: es) ↔ (e.Sound ∧ AllSound e.children) ∧ AllSound es := by
  unfold AllSound
  rw [nodesOf, nodes_eq, List.forall_mem_append, List.forall_mem_cons]

theorem allSound_append {es fs : List Element} :
    AllSound (es ++ fs) ↔ AllSound es ∧ AllSound fs := by
  unfold AllSound
  rw [nodesOf_append, List.forall_mem_append]

-- =================================================================== decoration

section

variable (e : Element) (c key value : String)

@[simp] theorem text_addClass : (e.addClass c).text = e.text := (sameBut_addClass e c).text

@[simp] theorem children_addClass : (e.addClass c).children = e.children :=
  (sameBut_addClass e c).children

@[simp] theorem text_setAttr : (e.setAttr key value).text = e.text := rfl

@[simp] theorem children_setAttr : (e.setAttr key value).children = e.children := rfl

end

/-- The second element is the first one with classes added, or with its
identity or its label set. -/
inductive Decorates (e : Element) : Element → Prop where
  | refl : Decorates e e
  | addClass {e' : Element} {c : String} (h : Decorates e e') (hc : Styled c) :
      Decorates e (e'.addClass c)
  | identity {e' : Element} {value : String} (h : Decorates e e')
      (hvalue : isStyleToken value = true) : Decorates e (e'.setAttr "id" value)
  | label {e' : Element} {value : String} (h : Decorates e e')
      (hvalue : isAttributeText value = true) : Decorates e (e'.setAttr "aria-label" value)

variable {e' : Element}

theorem Decorates.text_eq (h : Decorates e e') : e'.text = e.text := by
  induction h with
  | refl => rfl
  | addClass _ _ ih => rw [text_addClass, ih]
  | identity _ _ ih => rw [text_setAttr, ih]
  | label _ _ ih => rw [text_setAttr, ih]

theorem Decorates.children_eq (h : Decorates e e') : e'.children = e.children := by
  induction h with
  | refl => rfl
  | addClass _ _ ih => rw [children_addClass, ih]
  | identity _ _ ih => rw [children_setAttr, ih]
  | label _ _ ih => rw [children_setAttr, ih]

/-- A decorated element is as sound as it was. Its children are the same, so
the whole tree is. -/
theorem Decorates.sound (h : Decorates e e') (hsound : e.Sound) : e'.Sound := by
  induction h with
  | refl => exact hsound
  | addClass _ hc ih => exact ih.addClass hc
  | identity _ hvalue ih => exact ih.setAttr (soundAttribute_identity hvalue)
  | label _ hvalue ih => exact ih.setAttr (soundAttribute_text (.inr rfl) hvalue)

/-- Decorating the elements of sound trees leaves the trees sound. -/
theorem AllSound.decorated {es es' : List Element} (h : AllSound es)
    (hdecorates : List.Forall₂ Decorates es es') : AllSound es' := by
  induction hdecorates with
  | nil => exact h
  | cons hthis _ ih =>
    obtain ⟨⟨hsound, hchildren⟩, hrest⟩ := allSound_cons.1 h
    exact allSound_cons.2 ⟨⟨hthis.sound hsound, hthis.children_eq ▸ hchildren⟩, ih hrest⟩

/-- Decorated elements say what they said. -/
theorem textOf_decorated {es es' : List Element} (h : List.Forall₂ Decorates es es') :
    textOf es' = textOf es := by
  induction h with
  | nil => rfl
  | cons hthis _ ih =>
    rw [textOf_cons, textOf_cons, textOf_append, textOf_append, hthis.text_eq,
      hthis.children_eq, ih]

end Element

end UiScript
